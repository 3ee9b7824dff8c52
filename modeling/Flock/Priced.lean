import Flock.Keeper
import Flock.Lifecycle
import Flock.Quotes

/-!
# The keeper prices a bid as the program does

Both compute the premium in force and the price of a fill from the record, the
program in checked machine integers and the keeper in exact ones. In an auction
in order (`AuctionInOrder`) the program's intermediate values are the exact ones,
so wherever the program returns a premium or a price the keeper's is the same.
-/

namespace Flock

open Outcome MachineInt

variable {ch : Chain} {m : Pubkey} {w : World} {idx : Index}

/-! ## The premium -/

/-- A difference of clock readings less than a week apart does not wrap. -/
theorem toInt_sub_of_short {a b : Int64} (hle : b.toInt ≤ a.toInt)
    (hshort : a.toInt ≤ b.toInt + 604800) : (a - b).toInt = a.toInt - b.toInt := by
  rw [Int64.toInt_sub]
  exact Int.bmod_eq_of_le (by omega) (by omega)

theorem AuctionInOrder.premiumAt_agrees (h : AuctionInOrder idx) {now : Int64} {premium : Int32}
    (hprem : premiumAt idx.rebalance.startPremiumBps idx.rebalance.endPremiumBps
      idx.rebalance.startTs idx.rebalance.endTs now = .ok premium) :
    Sdk.premiumAt idx.rebalance.startPremiumBps.toInt idx.rebalance.endPremiumBps.toInt
      idx.rebalance.startTs.toInt idx.rebalance.endTs.toInt now.toInt = .ok premium.toInt := by
  obtain ⟨hopen, hclose, hspan⟩ := premiumAt_window hprem
  rw [Int64.le_iff_toInt_le] at hopen hclose
  rw [Int64.lt_iff_toInt_lt] at hspan
  have hshort := h.short
  have hspan' := toInt_sub_of_short hspan.le hshort
  have hpast := toInt_sub_of_short hopen (by omega)
  simp only [premiumAt, bind_ok_iff, toI32_ok_iff, hspan', hpast] at hprem
  obtain ⟨-, -, -, -, hprem⟩ := hprem
  unfold Sdk.premiumAt
  rw [if_neg (by omega), if_neg (by omega), hprem]

theorem Sdk.premiumAt_window {startBps endBps startTs endTs now premium : Int}
    (h : Sdk.premiumAt startBps endBps startTs endTs now = .ok premium) :
    startTs ≤ now ∧ now ≤ endTs := by
  unfold Sdk.premiumAt at h
  split at h
  next => cases h
  next hopen => omega

/-- The SDK divides doubles and cuts the quotient. In an auction in order no number of it
comes near 2 ^ 53, and what it gets is what `Sdk.premiumAt` says in integers. -/
theorem AuctionInOrder.premiumAt_doubles (h : AuctionInOrder idx) {now premium : Int}
    (hprem : Sdk.premiumAt idx.rebalance.startPremiumBps.toInt idx.rebalance.endPremiumBps.toInt
      idx.rebalance.startTs.toInt idx.rebalance.endTs.toInt now = .ok premium) :
    Double.add (.finite idx.rebalance.startPremiumBps.toInt)
      (Double.mathTrunc (Double.div
        (Double.mul
          (.finite (idx.rebalance.endPremiumBps.toInt - idx.rebalance.startPremiumBps.toInt : Int))
          (.finite (now - idx.rebalance.startTs.toInt : Int)))
        (.finite (idx.rebalance.endTs.toInt - idx.rebalance.startTs.toInt : Int))))
      = .finite premium := by
  have hshort := h.short
  have hlowest := h.lowest
  have hrising := h.rising
  have hhighest := h.highest
  obtain ⟨hopen, hclose⟩ := Sdk.premiumAt_window hprem
  unfold Sdk.premiumAt at hprem
  rw [if_neg (by omega)] at hprem
  split at hprem
  next => cases hprem
  next hspan =>
    obtain ⟨band, hband⟩ : ∃ n : ℕ, idx.rebalance.endPremiumBps.toInt
        - idx.rebalance.startPremiumBps.toInt = n := Int.eq_ofNat_of_zero_le (by omega)
    obtain ⟨elapsed, helapsed⟩ : ∃ n : ℕ, now - idx.rebalance.startTs.toInt = n :=
      Int.eq_ofNat_of_zero_le (by omega)
    obtain ⟨span, hspan⟩ : ∃ n : ℕ, idx.rebalance.endTs.toInt - idx.rebalance.startTs.toInt = n :=
      Int.eq_ofNat_of_zero_le (by omega)
    rw [hband, helapsed, hspan] at hprem ⊢
    have hproduct : band * elapsed ≤ 2000 * 604800 :=
      Nat.mul_le_mul (by omega) (by omega)
    have hquot : band * elapsed / span ≤ 2000 * 604800 := (Nat.div_le_self _ _).trans hproduct
    have hmul : Double.mul (.finite (band : Int)) (.finite (elapsed : Int))
        = .finite ((band * elapsed : ℕ) : ℚ) := by
      rw [Double.mul_intCast (by rw [← Nat.cast_mul, Int.natAbs_natCast]; omega)]
      norm_cast
    have hdiv := @Double.mathTrunc_div_natCast (band * elapsed) span (by omega) (by omega)
      (by omega)
    have hadd : (idx.rebalance.startPremiumBps.toInt + (band * elapsed / span : ℕ)).natAbs
        ≤ 2 ^ 53 := by
      generalize band * elapsed / span = quot at hquot
      omega
    rw [hmul, Int.cast_natCast, hdiv, ← Int.cast_natCast (band * elapsed / span),
      Double.add_intCast hadd, ← Except.ok.inj hprem, ← Nat.cast_mul, Int.ofNat_tdiv]

/-- A premium lies in its band, which ends at ten percent. -/
theorem AuctionInOrder.premium_le (h : AuctionInOrder idx) {now premium : Int}
    (hprem : Sdk.premiumAt idx.rebalance.startPremiumBps.toInt idx.rebalance.endPremiumBps.toInt
      idx.rebalance.startTs.toInt idx.rebalance.endTs.toInt now = .ok premium) :
    premium ≤ 1000 := by
  have hrise := h.rising
  have hhigh := h.highest
  unfold Sdk.premiumAt at hprem
  split at hprem
  next => cases hprem
  next hopen =>
    split at hprem
    next => cases hprem
    next hspan =>
      rw [← Except.ok.inj hprem]
      -- the fraction of the window gone is at most the whole
      have hfrac : ((idx.rebalance.endPremiumBps.toInt - idx.rebalance.startPremiumBps.toInt) *
          (now - idx.rebalance.startTs.toInt)).tdiv
            (idx.rebalance.endTs.toInt - idx.rebalance.startTs.toInt)
          ≤ idx.rebalance.endPremiumBps.toInt - idx.rebalance.startPremiumBps.toInt := by
        rw [Int.tdiv_eq_ediv_of_nonneg (mul_nonneg (by omega) (by omega))]
        refine Int.ediv_le_of_le_mul (by omega) ?_
        exact mul_le_mul_of_nonneg_left (by omega) (by omega)
      omega

/-! ## The price -/

/-- What `x` of the sold component costs in the bought one at a mark of `marked`
basis points, both steps rounded up. -/
def Component.price (sell buy : Component) (marked x : Nat) : Nat :=
  ((sell.value x * marked) ⌈/⌉ bps * 10 ^ buy.decimals.toNat) ⌈/⌉ buy.refPriceE9.toNat

theorem bidPrice_eq {sell buy : Component} {premium : Int32} {x y : UInt64}
    (h : bidPrice sell buy premium x = .ok y) :
    y.toNat = sell.price buy (10000 - premium.toInt).toNat x.toNat := by
  simp only [bidPrice, bind_ok_iff, valueE9_ok_iff, mulDivCeil_ok_iff] at h
  obtain ⟨_, ⟨-, rfl⟩, marked, hmarked, _, ⟨-, -, rfl⟩, hpay⟩ := h
  obtain ⟨-, hpay⟩ := amountFromValueCeil_ok hpay
  have hmarked' : (10000 - premium.toInt).toNat = marked := by
    rw [← Int.toNat_natCast marked, toU128_ok hmarked]
    rfl
  rw [hpay, hmarked']
  rfl

/-- The SDK's quote of a fill, on natural numbers. -/
theorem Sdk.quotePair_nat {sell buy : Component} {premium : Int} {x : Nat}
    (hprem : premium ≤ 1000) (hprice : buy.refPriceE9.toNat ≠ 0) :
    Keeper.quotePair (Sdk.decodeComponent sell) (Sdk.decodeComponent buy) premium x = .ok
      { valueOutE9 := sell.value x
        valueInE9 := ((sell.value x * (10000 - premium).toNat) ⌈/⌉ Flock.bps : Nat)
        buyAmount := sell.price buy (10000 - premium).toNat x } := by
  have hpow : ∀ d : UInt8, (10 : Int) ^ d.toNat = ((10 ^ d.toNat : Nat) : Int) :=
    fun d => (Nat.cast_pow 10 d.toNat).symm
  have hpow0 : ∀ d : UInt8, 10 ^ d.toNat ≠ 0 := fun d => (Nat.pow_pos (by decide)).ne'
  have hmarked : Sdk.bps - premium = (((10000 - premium).toNat : Nat) : Int) := by
    unfold Sdk.bps
    omega
  have hout : Sdk.valueE9 x sell.decimals.toNat sell.refPriceE9.toNat
      = .ok (sell.value x : Int) := by
    rw [Sdk.valueE9, hpow, Sdk.mulDivFloor_nat _ _ (hpow0 _)]
    rfl
  have hin : Sdk.mulDivCeil (sell.value x) (Sdk.bps - premium) Sdk.bps
      = .ok (((sell.value x * (10000 - premium).toNat) ⌈/⌉ Flock.bps : Nat) : Int) := by
    rw [hmarked]
    exact Sdk.mulDivCeil_nat _ _ (by decide)
  have hpay : ∀ value : Nat, Sdk.amountFromValueCeil value buy.decimals.toNat buy.refPriceE9.toNat
      = .ok (((value * 10 ^ buy.decimals.toNat) ⌈/⌉ buy.refPriceE9.toNat : Nat) : Int) := by
    intro value
    have hp : (buy.refPriceE9.toNat : Int) ≠ 0 := by exact_mod_cast hprice
    rw [Sdk.amountFromValueCeil, if_neg hp, hpow, Sdk.mulDivCeil_nat _ _ hprice]
  show Sdk.bidCost x sell.decimals.toNat sell.refPriceE9.toNat buy.decimals.toNat
    buy.refPriceE9.toNat premium = _
  rw [Sdk.bidCost, hout, ok_bind, hin, ok_bind, hpay, ok_bind]
  rfl

end Flock
