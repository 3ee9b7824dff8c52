import Flock.Error
import Flock.Lib.MachineInt
import Mathlib.Algebra.Order.Floor.Div

/-!
# `math.rs`: the program's fixed-point arithmetic

A `u128` intermediate is a `Nat` here and every `checked_` operation tests the
bound the source tests. A `u64` stays a `UInt64`, so narrowing is the source's
`to_u64` and nothing else. Each function is followed by the one lemma its
callers use: what the value is whenever the function returns one.
-/

namespace Flock

open Outcome MachineInt

/-- `UNIT_SCALE`: component units are quoted per whole index token. -/
def unitScale : Nat := 1000000000

/-- `BPS`. -/
def bps : Nat := 10000

/-- `SECONDS_PER_YEAR`. -/
def secondsPerYear : Nat := 31536000

/-- `u128::checked_mul`. -/
def checkedMul (a b : Nat) : Except FlockError Nat :=
  if a * b < 2 ^ 128 then .ok (a * b) else .error .mathOverflow

/-- A product is there if it fits. -/
theorem checkedMul_ok_iff {a b x : Nat} :
    checkedMul a b = .ok x ↔ a * b < 2 ^ 128 ∧ x = a * b := by
  unfold checkedMul
  split <;> simp_all [eq_comm]

def mulDivFloor (a b d : Nat) : Except FlockError Nat := do
  failIf (d = 0) .mathOverflow
  let x ← checkedMul a b
  pure (x / d)

/-- `mul_div_floor` is the floor, if the product fits. -/
theorem mulDivFloor_ok_iff {a b d x : Nat} :
    mulDivFloor a b d = .ok x ↔ d ≠ 0 ∧ a * b < 2 ^ 128 ∧ x = a * b / d := by
  simp only [mulDivFloor, bind_ok_iff, failIf_ok_iff, checkedMul_ok_iff, pure_ok_iff]
  constructor
  · rintro ⟨_, hd, _, ⟨hlt, rfl⟩, rfl⟩
    exact ⟨hd, hlt, rfl⟩
  · rintro ⟨hd, hlt, rfl⟩
    exact ⟨(), hd, _, ⟨hlt, rfl⟩, rfl⟩

def mulDivCeil (a b d : Nat) : Except FlockError Nat := do
  failIf (d = 0) .mathOverflow
  let n ← checkedMul a b
  pure (n ⌈/⌉ d)

/-- `mul_div_ceil` is the ceiling, if the product fits. -/
theorem mulDivCeil_ok_iff {a b d x : Nat} :
    mulDivCeil a b d = .ok x ↔ d ≠ 0 ∧ a * b < 2 ^ 128 ∧ x = (a * b) ⌈/⌉ d := by
  simp only [mulDivCeil, bind_ok_iff, failIf_ok_iff, checkedMul_ok_iff, pure_ok_iff]
  constructor
  · rintro ⟨_, hd, _, ⟨hlt, rfl⟩, rfl⟩
    exact ⟨hd, hlt, rfl⟩
  · rintro ⟨hd, hlt, rfl⟩
    exact ⟨(), hd, _, ⟨hlt, rfl⟩, rfl⟩

def toU64 (x : Nat) : Except FlockError UInt64 :=
  match narrow x with
  | some y => .ok y
  | none => .error .mathOverflow

/-- A cast keeps the value, or fails. -/
theorem toU64_ok_iff {x : Nat} {y : UInt64} : toU64 x = .ok y ↔ y.toNat = x := by
  rw [← narrow_eq_some]
  unfold toU64
  split <;> simp_all

/-- `u64::checked_add`, with the error every caller maps it to. -/
def checkedAdd (a b : UInt64) : Except FlockError UInt64 := toU64 (a.toNat + b.toNat)

/-- `u64::checked_sub`. -/
def checkedSub (a b : UInt64) : Except FlockError UInt64 :=
  if b ≤ a then .ok (a - b) else .error .mathOverflow

/-- A difference is there if it is not negative. -/
theorem checkedSub_ok_iff {a b c : UInt64} :
    checkedSub a b = .ok c ↔ c.toNat + b.toNat = a.toNat := by
  unfold checkedSub
  split
  next h =>
    have hs := UInt64.toNat_sub_of_le a b h
    have hle := UInt64.le_iff_toNat_le.mp h
    rw [Except.ok.injEq, ← UInt64.toNat_inj]
    omega
  next h =>
    have hle := mt UInt64.le_iff_toNat_le.mpr h
    simp only [reduceCtorEq, false_iff]
    omega

/-- Component base units a caller must deliver to mint `amount` index base units. -/
def unitsIn (units amount : UInt64) : Except FlockError UInt64 := do
  toU64 (← mulDivCeil units.toNat amount.toNat unitScale)

/-- Component base units a caller receives for burning `amount` index base units. -/
def unitsOut (units amount : UInt64) : Except FlockError UInt64 := do
  toU64 (← mulDivFloor units.toNat amount.toNat unitScale)

/-- The units a component is worth given what the vault actually holds. -/
def unitsFromBalance (balance supply : UInt64) : Except FlockError UInt64 := do
  failIf (supply = 0) .supplyTooSmall
  toU64 (← mulDivFloor balance.toNat unitScale supply.toNat)

/-- A delivery is rounded up. -/
theorem unitsIn_ok_iff {units amount x : UInt64} :
    unitsIn units amount = .ok x ↔ x.toNat = (units.toNat * amount.toNat) ⌈/⌉ unitScale := by
  have hlt : units.toNat * amount.toNat < 2 ^ 128 := by
    have := Nat.mul_lt_mul'' units.toNat_lt amount.toNat_lt
    omega
  simp only [unitsIn, bind_ok_iff, mulDivCeil_ok_iff, toU64_ok_iff]
  constructor
  · rintro ⟨_, ⟨_, _, rfl⟩, hx⟩
    exact hx
  · exact fun hx => ⟨_, ⟨by decide, hlt, rfl⟩, hx⟩

/-- A payout is rounded down. -/
theorem unitsOut_ok_iff {units amount x : UInt64} :
    unitsOut units amount = .ok x ↔ x.toNat = units.toNat * amount.toNat / unitScale := by
  have hlt : units.toNat * amount.toNat < 2 ^ 128 := by
    have := Nat.mul_lt_mul'' units.toNat_lt amount.toNat_lt
    omega
  simp only [unitsOut, bind_ok_iff, mulDivFloor_ok_iff, toU64_ok_iff]
  constructor
  · rintro ⟨_, ⟨_, _, rfl⟩, hx⟩
    exact hx
  · exact fun hx => ⟨_, ⟨by decide, hlt, rfl⟩, hx⟩

/-- Units are rounded down, and there are none of no supply. -/
theorem unitsFromBalance_ok_iff {balance supply x : UInt64} :
    unitsFromBalance balance supply = .ok x ↔
      supply.toNat ≠ 0 ∧ x.toNat = balance.toNat * unitScale / supply.toNat := by
  have hlt : balance.toNat * unitScale < 2 ^ 128 := by
    have := balance.toNat_lt
    unfold unitScale
    omega
  have h0 : supply = 0 ↔ supply.toNat = 0 := by
    rw [← UInt64.toNat_inj, UInt64.toNat_zero]
  simp only [unitsFromBalance, bind_ok_iff, failIf_ok_iff, mulDivFloor_ok_iff, toU64_ok_iff, h0]
  constructor
  · rintro ⟨_, hs, _, ⟨_, _, rfl⟩, hx⟩
    exact ⟨hs, hx⟩
  · rintro ⟨hs, hx⟩
    exact ⟨(), hs, _, ⟨hs, hlt, rfl⟩, hx⟩

/-- USD value in 1e9 of `balance` base units of a token. -/
def valueE9 (balance : UInt64) (decimals : UInt8) (priceE9 : UInt64) : Except FlockError Nat := do
  failIf (¬ 10 ^ decimals.toNat < 2 ^ 128) .mathOverflow
  mulDivFloor balance.toNat priceE9.toNat (10 ^ decimals.toNat)

/-- A value is rounded down. -/
theorem valueE9_ok_iff {balance : UInt64} {decimals : UInt8} {priceE9 : UInt64} {x : Nat} :
    valueE9 balance decimals priceE9 = .ok x ↔
      10 ^ decimals.toNat < 2 ^ 128 ∧
        x = balance.toNat * priceE9.toNat / 10 ^ decimals.toNat := by
  have hlt : balance.toNat * priceE9.toNat < 2 ^ 128 := by
    have := Nat.mul_lt_mul'' balance.toNat_lt priceE9.toNat_lt
    omega
  have h0 : 10 ^ decimals.toNat ≠ 0 := Nat.pos_iff_ne_zero.mp (Nat.pow_pos (by decide))
  simp only [valueE9, bind_ok_iff, failIf_ok_iff, mulDivFloor_ok_iff, not_not]
  constructor
  · rintro ⟨_, hd, _, _, rfl⟩
    exact ⟨hd, rfl⟩
  · rintro ⟨hd, rfl⟩
    exact ⟨(), hd, h0, hlt, rfl⟩

/-- Base units of a token worth `value` USD-e9, rounded up. -/
def amountFromValueCeil (value : Nat) (decimals : UInt8) (priceE9 : UInt64) :
    Except FlockError UInt64 := do
  failIf (priceE9 = 0) .invalidPrice
  failIf (¬ 10 ^ decimals.toNat < 2 ^ 128) .mathOverflow
  toU64 (← mulDivCeil value (10 ^ decimals.toNat) priceE9.toNat)

/-- An amount that is worth a value is rounded up. -/
theorem amountFromValueCeil_ok {value : Nat} {decimals : UInt8} {priceE9 x : UInt64}
    (h : amountFromValueCeil value decimals priceE9 = .ok x) :
    priceE9.toNat ≠ 0 ∧ x.toNat = (value * 10 ^ decimals.toNat) ⌈/⌉ priceE9.toNat := by
  simp only [amountFromValueCeil, bind_ok_iff, failIf_ok_iff, mulDivCeil_ok_iff,
    toU64_ok_iff] at h
  obtain ⟨_, _, _, _, _, ⟨hp, _, rfl⟩, hx⟩ := h
  exact ⟨hp, hx⟩

/-- Streaming fee, charged as dilution: over `dt` seconds an annual rate should
leave the recipient holding that fraction of the grown supply. -/
def streamingFeeTokens (supply : UInt64) (feeBps : UInt16) (dt : Int64) :
    Except FlockError UInt64 :=
  if supply = 0 ∨ feeBps = 0 ∨ dt ≤ 0 then .ok 0
  else do
    let num ← checkedMul feeBps.toNat dt.toInt.toNat
    let den ← checkedMul bps secondsPerYear
    failIf (num ≥ den) .mathOverflow
    toU64 (← mulDivFloor supply.toNat num (den - num))

/-- What a streaming fee is a fraction of: all the basis points of a year. -/
def wholeYear : Nat := bps * secondsPerYear

/-- Seconds from one clock reading to a later one. -/
def elapsed (since now : Int64) : Nat := (now.toInt - since.toInt).toNat

/-- A saturated difference of clock readings is the elapsed time, up to the largest `i64`. -/
theorem toNat_saturatingSub {since now : Int64} (h : since ≤ now) :
    (saturatingSub now since).toInt.toNat = min (2 ^ 63 - 1) (elapsed since now) := by
  have hle := Int64.le_iff_toInt_le.mp h
  rw [toInt_saturatingSub]
  unfold elapsed
  omega

/-- The branches of `streaming_fee_tokens` are one formula: nothing to charge is
the formula at zero. -/
theorem streamingFeeTokens_dt_ok_iff {supply x : UInt64} {feeBps : UInt16} {dt : Int64}
    (hS : supply.toNat ≠ 0) :
    streamingFeeTokens supply feeBps dt = .ok x ↔
      feeBps.toNat * dt.toInt.toNat < wholeYear ∧ x.toNat =
        supply.toNat * (feeBps.toNat * dt.toInt.toNat) /
          (wholeYear - feeBps.toNat * dt.toInt.toNat) := by
  have hS0 : supply ≠ 0 := fun h => hS (by rw [h, UInt64.toNat_zero])
  have hyear : checkedMul bps secondsPerYear = .ok wholeYear := by decide
  have hnone : ∀ num, num = 0 → ((Except.ok (0 : UInt64) : Except FlockError UInt64) = .ok x ↔
      num < wholeYear ∧ x.toNat = supply.toNat * num / (wholeYear - num)) := by
    rintro num rfl
    rw [Except.ok.injEq, Nat.mul_zero, Nat.zero_div, ← UInt64.toNat_inj, UInt64.toNat_zero,
      eq_comm]
    exact (and_iff_right (by decide)).symm
  unfold streamingFeeTokens
  split
  next h =>
    refine hnone _ ?_
    rcases h with h | h | h
    · exact absurd h hS0
    · rw [h, UInt16.toNat_zero, Nat.zero_mul]
    · have hle := Int64.le_iff_toInt_le.mp h
      rw [Int64.toInt_zero] at hle
      rw [Int.toNat_of_nonpos hle, Nat.mul_zero]
  next =>
    have hnum : feeBps.toNat * dt.toInt.toNat < 2 ^ 128 := by
      have hd : dt.toInt.toNat < 2 ^ 63 := by
        have := dt.toInt_lt
        omega
      have := Nat.mul_lt_mul'' feeBps.toNat_lt hd
      omega
    simp only [bind_ok_iff, checkedMul_ok_iff, hyear, Except.ok.injEq, failIf_ok_iff, ge_iff_le,
      Nat.not_le, mulDivFloor_ok_iff, toU64_ok_iff]
    constructor
    · rintro ⟨_, ⟨-, rfl⟩, _, rfl, -, hlt, _, ⟨-, -, rfl⟩, hx⟩
      exact ⟨hlt, hx⟩
    · rintro ⟨hlt, hx⟩
      have hprod : supply.toNat * (feeBps.toNat * dt.toInt.toNat) < 2 ^ 128 := by
        have := Nat.mul_lt_mul'' supply.toNat_lt hlt
        have : wholeYear < 2 ^ 64 := by decide
        omega
      exact ⟨_, ⟨hnum, rfl⟩, _, rfl, (), hlt, _, ⟨by omega, hprod, rfl⟩, hx⟩

/-- The fee is the closed form while less than everything is owed. -/
theorem streamingFeeTokens_ok_iff {supply x : UInt64} {feeBps : UInt16} {since now : Int64}
    (hS : supply.toNat ≠ 0) (h : since ≤ now) :
    streamingFeeTokens supply feeBps (saturatingSub now since) = .ok x ↔
      feeBps.toNat * elapsed since now < wholeYear ∧ x.toNat =
        supply.toNat * (feeBps.toNat * elapsed since now) /
          (wholeYear - feeBps.toNat * elapsed since now) := by
  rw [streamingFeeTokens_dt_ok_iff hS, toNat_saturatingSub h]
  by_cases hfits : elapsed since now ≤ 2 ^ 63 - 1
  · rw [Nat.min_eq_right hfits]
  by_cases hf : feeBps.toNat = 0
  · rw [hf, Nat.zero_mul, Nat.zero_mul]
  -- a saturated difference is more than a year at any rate
  have hlong : ∀ d, 2 ^ 63 - 1 ≤ d → ¬ feeBps.toNat * d < wholeYear := by
    intro d hd
    have : wholeYear ≤ 2 ^ 63 - 1 := by decide
    have := Nat.le_mul_of_pos_left d (Nat.pos_of_ne_zero hf)
    omega
  rw [Nat.min_eq_left (by omega)]
  exact iff_of_false (fun hx => hlong _ (le_refl _) hx.1) fun hx => hlong _ (by omega) hx.1

/-- A fee of at least `n` tokens: `n` is the fraction `num` of the grown supply, or
less. -/
theorem le_streamingFee_iff {supply num n : Nat} (h : num < wholeYear) :
    n ≤ supply * num / (wholeYear - num) ↔ n * wholeYear ≤ (supply + n) * num := by
  rw [Nat.le_div_iff_mul_le (Nat.sub_pos_of_lt h), Nat.mul_sub, tsub_le_iff_right, Nat.add_mul]

/-- `i64::checked_add`. -/
def checkedAddI64 (a b : Int64) : Except FlockError Int64 :=
  if -2 ^ 63 ≤ a.toInt + b.toInt ∧ a.toInt + b.toInt < 2 ^ 63 then
    .ok (Int64.ofInt (a.toInt + b.toInt))
  else .error .mathOverflow

/-- A sum of clock readings is the sum. -/
theorem checkedAddI64_ok {a b c : Int64} (h : checkedAddI64 a b = .ok c) :
    c.toInt = a.toInt + b.toInt := by
  unfold checkedAddI64 at h
  split at h
  next hr =>
    obtain rfl := Except.ok.inj h
    exact Int64.toInt_ofInt_of_le hr.1 hr.2
  next => cases h

/-- `u128::try_from` of an `i128`. -/
def toU128 (x : Int) : Except FlockError Nat :=
  if 0 ≤ x ∧ x < 2 ^ 128 then .ok x.toNat else .error .mathOverflow

/-- A cast keeps the value. -/
theorem toU128_ok {x : Int} {y : Nat} (h : toU128 x = .ok y) : (y : Int) = x := by
  unfold toU128 at h
  split at h
  next hr =>
    obtain rfl := Except.ok.inj h
    exact Int.toNat_of_nonneg hr.1
  next => cases h

/-- The unchecked `-` on `u128`. -/
def wrappingSub (a b : Nat) : Nat := (a + 2 ^ 128 - b) % 2 ^ 128

/-- A difference that is not negative does not wrap. -/
theorem wrappingSub_of_le {a b : Nat} (h : b ≤ a) (ha : a < 2 ^ 128) :
    wrappingSub a b = a - b := by
  unfold wrappingSub
  omega

/-- `i32::try_from`. -/
def toI32 (x : Int) : Except FlockError Int32 :=
  if -2 ^ 31 ≤ x ∧ x < 2 ^ 31 then .ok (Int32.ofInt x) else .error .mathOverflow

/-- A cast keeps the value, or fails. -/
theorem toI32_ok_iff {x : Int} {y : Int32} : toI32 x = .ok y ↔ y.toInt = x := by
  unfold toI32
  split
  next h =>
    rw [Except.ok.injEq, ← Int32.toInt_inj, Int32.toInt_ofInt_of_le h.1 h.2, eq_comm]
  next h =>
    have := y.le_toInt
    have := y.toInt_lt
    simp only [reduceCtorEq, false_iff]
    omega

/-- The auction discount in force at `now`, decaying linearly from `startBps`
to `endBps`. Rust's `/` truncates toward zero, hence `Int.tdiv`. -/
def premiumAt (startBps endBps : Int16) (startTs endTs now : Int64) :
    Except FlockError Int32 := do
  failIf (now < startTs ∨ now > endTs) .auctionClosed
  failIf (endTs ≤ startTs) .invalidPremium
  let span := (endTs - startTs).toInt
  let elapsed := (now - startTs).toInt
  let delta := ((endBps.toInt - startBps.toInt) * elapsed).tdiv span
  toI32 (startBps.toInt + delta)

/-- There is a premium inside the window only. -/
theorem premiumAt_window {startBps endBps : Int16} {startTs endTs now : Int64} {premium : Int32}
    (h : premiumAt startBps endBps startTs endTs now = .ok premium) :
    startTs ≤ now ∧ now ≤ endTs ∧ startTs < endTs := by
  simp only [premiumAt, bind_ok_iff, failIf_ok_iff, not_or, Int64.not_lt, gt_iff_lt,
    Int64.not_le] at h
  obtain ⟨-, ⟨hopen, hclose⟩, -, hspan, -⟩ := h
  exact ⟨hopen, hclose, hspan⟩

end Flock
