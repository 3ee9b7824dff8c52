import Flock.Math
import Flock.Lib.Interpolate
import Mathlib.Order.Bounds.Basic

/-!
# The two curves of `math.rs`

The streaming fee is the solution of an equation it occurs in itself: a fraction
of the supply it has already grown. `le_streamingFee_iff` is that equation read
as a bound, and both halves of the result are read off it.

The premium is a line between two signed ends, computed with a division that
truncates and with a window measured in `i64`. The line only ever rises, so the
truncation is a floor; the window is only measured right while it fits. A window
of `2 ^ 63` seconds or more wraps to a negative span, and `premium_rises_iff`
says which bands do not notice.
-/

namespace Flock

open Outcome MachineInt Interpolate

/-! ## The streaming fee -/

section Fee

variable {supply fee : UInt64} {feeBps : UInt16} {dt : Int64}

/-- The amounts that are no more than their fraction of the supply they grow are
the ones up to the fee. -/
theorem le_fee_iff (hS : 0 < supply.toNat) (hdt : 0 < dt.toInt)
    (h : streamingFeeTokens supply feeBps dt = .ok fee) (m : ℤ) :
    m * wholeYear ≤ feeBps.toNat * dt.toInt * (supply.toNat + m) ↔ m ≤ fee.toNat := by
  obtain ⟨hnum, hfee⟩ := (streamingFeeTokens_dt_ok_iff hS.ne').mp h
  have hdt' : ((dt.toInt.toNat : ℕ) : ℤ) = dt.toInt := Int.toNat_of_nonneg hdt.le
  rw [← hdt', ← Nat.cast_mul]
  generalize feeBps.toNat * dt.toInt.toNat = num at hnum hfee ⊢
  by_cases hm : 0 ≤ m
  · obtain ⟨n, rfl⟩ := Int.eq_ofNat_of_zero_le hm
    rw [hfee, Int.ofNat_le, le_streamingFee_iff hnum, ← Int.ofNat_le, mul_comm (num : ℤ)]
    push_cast
    rfl
  · -- less than nothing is always within the fraction
    have hneg : m * wholeYear ≤ m * num :=
      Int.mul_le_mul_of_nonpos_left (Int.le_of_lt (Int.not_le.mp hm)) (Int.ofNat_le.mpr hnum.le)
    have hpos : (0 : ℤ) ≤ num * supply.toNat := by positivity
    refine iff_of_true ?_ (by omega)
    rw [Int.mul_add, Int.mul_comm (num : ℤ) m]
    omega

/-- The fee is the largest amount that is at most its fraction of the grown supply,
and it does not fall when the supply, the rate or the time grows. -/
theorem streaming_fee_is_the_exact_share (hS : 0 < supply.toNat) (hdt : 0 < dt.toInt)
    (h : streamingFeeTokens supply feeBps dt = .ok fee) :
    IsGreatest {m : ℤ | m * wholeYear ≤ feeBps.toNat * dt.toInt * (supply.toNat + m)} fee.toNat ∧
      (fee.toNat : ℚ) / (supply.toNat + fee.toNat) ≤ feeBps.toNat * dt.toInt / wholeYear ∧
      (feeBps.toNat * dt.toInt / wholeYear : ℚ) <
        (fee.toNat + 1) / (supply.toNat + (fee.toNat + 1)) ∧
      ∀ {supply' fee' : UInt64} {feeBps' : UInt16} {dt' : Int64}, supply ≤ supply' →
        feeBps ≤ feeBps' → dt ≤ dt' → streamingFeeTokens supply' feeBps' dt' = .ok fee' →
        fee ≤ fee' := by
  have hle := le_fee_iff hS hdt h
  have hyear : (0 : ℚ) < wholeYear := by
    unfold wholeYear bps secondsPerYear
    norm_num
  have hSq : (0 : ℚ) < supply.toNat := Nat.cast_pos.mpr hS
  have hmem := (hle fee.toNat).mpr le_rfl
  refine ⟨⟨hmem, fun m hm => (hle m).mp hm⟩, ?_, ?_, ?_⟩
  · rw [div_le_div_iff₀ (by positivity) hyear]
    exact_mod_cast hmem
  · have hmore := mt (hle (fee.toNat + 1)).mp (by omega)
    rw [div_lt_div_iff₀ hyear (by positivity)]
    exact_mod_cast Int.not_le.mp hmore
  · intro supply' fee' feeBps' dt' hs hf hd h'
    have hs := UInt64.le_iff_toNat_le.mp hs
    have hf := UInt16.le_iff_toNat_le.mp hf
    have hd := Int64.le_iff_toInt_le.mp hd
    have hmem' := (le_fee_iff (Nat.lt_of_lt_of_le hS hs) (Int.lt_of_lt_of_le hdt hd) h'
      fee.toNat).mp ?_
    · exact UInt64.le_iff_toNat_le.mpr (Int.ofNat_le.mp hmem')
    calc (fee.toNat : ℤ) * wholeYear
        ≤ feeBps.toNat * dt.toInt * (supply.toNat + fee.toNat) := hmem
      _ ≤ feeBps'.toNat * dt'.toInt * (supply'.toNat + fee.toNat) := by
          have : 0 ≤ dt'.toInt := hdt.le.trans hd
          gcongr

/-- A hundred basis points of a year. -/
theorem streaming_fee_is_the_exact_share_of_a_year :
    IsGreatest {m : ℤ | m * wholeYear ≤ 100 * 31536000 * (1000000000000 + m)} 10101010101 :=
  (@streaming_fee_is_the_exact_share 1000000000000 10101010101 100 31536000 (by decide) (by decide)
    (by decide)).1

end Fee

/-! ## The premium -/

section Premium

variable {startBps endBps : Int16} {startTs endTs now : Int64}

/-- Every time in the window has a premium, the exact line rounded down; it rises
through the band from one end to the other; and outside there is none. -/
structure RisesThroughBand (startBps endBps : Int16) (startTs endTs : Int64) : Prop where
  line : ∀ t, startTs ≤ t → t ≤ endTs → ∃ p, premiumAt startBps endBps startTs endTs t = .ok p ∧
    p.toInt = ⌊exactly startBps.toInt endBps.toInt (t.toInt - startTs.toInt)
      (endTs.toInt - startTs.toInt)⌋
  rises : ∀ t₁ t₂, startTs ≤ t₁ → t₁ ≤ t₂ → t₂ ≤ endTs → ∃ p₁ p₂,
    premiumAt startBps endBps startTs endTs t₁ = .ok p₁ ∧
      premiumAt startBps endBps startTs endTs t₂ = .ok p₂ ∧
      startBps.toInt ≤ p₁.toInt ∧ p₁ ≤ p₂ ∧ p₂.toInt ≤ endBps.toInt
  opens : ∃ p, premiumAt startBps endBps startTs endTs startTs = .ok p ∧ p.toInt = startBps.toInt
  closes : ∃ p, premiumAt startBps endBps startTs endTs endTs = .ok p ∧ p.toInt = endBps.toInt
  outside : ∀ t, t < startTs ∨ endTs < t →
    premiumAt startBps endBps startTs endTs t = .error .auctionClosed

/-- The seconds of the window fit `i64`, or the band is too narrow to notice. -/
def Measured (startBps endBps : Int16) (startTs endTs : Int64) : Prop :=
  endTs.toInt - startTs.toInt < 2 ^ 63 ∨ startBps = endBps ∨
    (endBps.toInt - startBps.toInt = 1 ∧ endTs.toInt - startTs.toInt = 2 ^ 63)

/-- A difference of two clock readings, as `i64` has it. -/
theorem toInt_sub_of_le {a b : Int64} (h : a ≤ b) :
    (b - a).toInt = if b.toInt - a.toInt < 2 ^ 63 then b.toInt - a.toInt
      else b.toInt - a.toInt - 2 ^ 64 := by
  have hle := Int64.le_iff_toInt_le.mp h
  have ha := a.le_toInt
  have hb := b.toInt_lt
  rw [Int64.toInt_sub]
  split
  next hfit => exact Int.bmod_eq_of_le_mul_two (by omega) (by omega)
  next hwide =>
    rw [← Int.sub_bmod_right]
    exact Int.bmod_eq_of_le_mul_two (by omega) (by omega)

/-- What `premium_at` computes inside the window. -/
theorem premiumAt_ok_iff (ht : startTs < endTs) (h₁ : startTs ≤ now) (h₂ : now ≤ endTs)
    {p : Int32} : premiumAt startBps endBps startTs endTs now = .ok p ↔
      p.toInt = startBps.toInt + ((endBps.toInt - startBps.toInt) * (now - startTs).toInt).tdiv
        (endTs - startTs).toInt := by
  have hopen : ¬ (now < startTs ∨ now > endTs) := by
    rw [not_or, Int64.not_lt, gt_iff_lt, Int64.not_lt]
    exact ⟨h₁, h₂⟩
  have hspan : ¬ endTs ≤ startTs := Int64.not_le.mpr ht
  simp only [premiumAt, bind_ok_iff, failIf_ok_iff, toI32_ok_iff]
  constructor
  · intro h
    obtain ⟨-, -, -, -, hp⟩ := h
    exact hp
  · intro h
    exact ⟨(), hopen, (), hspan, h⟩

/-- A band that is measured right follows the exact line, rounded down. -/
theorem delta_of_measured (hb : startBps ≤ endBps) (ht : startTs < endTs)
    (hM : Measured startBps endBps startTs endTs) (h₁ : startTs ≤ now) (h₂ : now ≤ endTs) :
    startBps.toInt + ((endBps.toInt - startBps.toInt) * (now - startTs).toInt).tdiv
        (endTs - startTs).toInt =
      along startBps.toInt endBps.toInt (now.toInt - startTs.toInt)
        (endTs.toInt - startTs.toInt) := by
  have hb := Int16.le_iff_toInt_le.mp hb
  have ht' := Int64.lt_iff_toInt_lt.mp ht
  have h₁' := Int64.le_iff_toInt_le.mp h₁
  have h₂' := Int64.le_iff_toInt_le.mp h₂
  rw [toInt_sub_of_le h₁, toInt_sub_of_le (Int64.le_of_lt ht)]
  rcases hM with hfit | heq | ⟨hone, hwidth⟩
  · rw [if_pos (by omega), if_pos hfit, along_eq_tdiv hb (by omega)]
  · unfold along
    rw [heq, Int.sub_self, Int.zero_mul, Int.zero_mul, Int.zero_tdiv, Int.zero_ediv]
  · -- one basis point over `2 ^ 63` seconds: the line leaves `startBps` at the very end
    unfold along
    rw [hone, hwidth, Int.one_mul, Int.one_mul, if_neg (by omega : ¬ (2 : ℤ) ^ 63 < 2 ^ 63)]
    by_cases hend : now.toInt - startTs.toInt < 2 ^ 63
    · have hneg : (2 : ℤ) ^ 63 - 2 ^ 64 = -2 ^ 63 := by decide
      rw [if_pos hend, Int.ediv_eq_zero_of_lt (by omega) hend, hneg, Int.tdiv_neg,
        Int.tdiv_eq_zero_of_lt (by omega) hend, Int.neg_zero]
    · rw [if_neg hend, show now.toInt - startTs.toInt = 2 ^ 63 by omega]
      rfl

/-- A line that stays in the band's ends has a premium. -/
theorem premiumAt_of_measured (hb : startBps ≤ endBps) (ht : startTs < endTs)
    (hM : Measured startBps endBps startTs endTs) (h₁ : startTs ≤ now) (h₂ : now ≤ endTs) :
    ∃ p, premiumAt startBps endBps startTs endTs now = .ok p ∧
      p.toInt = along startBps.toInt endBps.toInt (now.toInt - startTs.toInt)
        (endTs.toInt - startTs.toInt) := by
  have hb' := Int16.le_iff_toInt_le.mp hb
  have ht' := Int64.lt_iff_toInt_lt.mp ht
  have h₁' := Int64.le_iff_toInt_le.mp h₁
  have h₂' := Int64.le_iff_toInt_le.mp h₂
  have hlow := le_along hb' (Int.sub_pos_of_lt ht') (Int.sub_nonneg_of_le h₁')
  have hhigh := along_le hb' (Int.sub_pos_of_lt ht') (Int.sub_le_sub_right h₂' startTs.toInt)
  have hs := startBps.le_toInt
  have he := endBps.toInt_lt
  have hp : (Int32.ofInt (along startBps.toInt endBps.toInt (now.toInt - startTs.toInt)
      (endTs.toInt - startTs.toInt))).toInt = _ := Int32.toInt_ofInt_of_le (by omega) (by omega)
  exact ⟨_, (premiumAt_ok_iff ht h₁ h₂).mpr (hp.trans (delta_of_measured hb ht hM h₁ h₂).symm), hp⟩

/-- A window that does not fit turns the line around: one second before half the
range of the clock the premium is below the band. -/
theorem premiumAt_below (ht : startTs < endTs) (hb : startBps ≤ endBps)
    (hM : ¬ Measured startBps endBps startTs endTs) : ∃ t, startTs ≤ t ∧ t ≤ endTs ∧
      ∀ p, premiumAt startBps endBps startTs endTs t = .ok p → p.toInt < startBps.toInt := by
  obtain ⟨hwide, hne, hone⟩ : ¬ endTs.toInt - startTs.toInt < 2 ^ 63 ∧ ¬ startBps = endBps ∧
      ¬ (endBps.toInt - startBps.toInt = 1 ∧ endTs.toInt - startTs.toInt = 2 ^ 63) := by
    simpa only [Measured, not_or] using hM
  have hb' := Int16.le_iff_toInt_le.mp hb
  have hne' := mt Int16.toInt_inj.mp hne
  have hs := startTs.le_toInt
  have he := endTs.toInt_lt
  have ht₀ : (Int64.ofInt (startTs.toInt + (2 ^ 63 - 1))).toInt = startTs.toInt + (2 ^ 63 - 1) :=
    Int64.toInt_ofInt_of_le (by omega) (by omega)
  have h₁ : startTs ≤ Int64.ofInt (startTs.toInt + (2 ^ 63 - 1)) :=
    Int64.le_iff_toInt_le.mpr (by omega)
  have h₂ : Int64.ofInt (startTs.toInt + (2 ^ 63 - 1)) ≤ endTs :=
    Int64.le_iff_toInt_le.mpr (by omega)
  refine ⟨_, h₁, h₂, fun p hp => ?_⟩
  rw [premiumAt_ok_iff ht h₁ h₂, toInt_sub_of_le h₁, toInt_sub_of_le (Int64.le_of_lt ht), ht₀,
    if_pos (by omega), if_neg hwide] at hp
  -- the span is negative and no longer than what the premium has to move
  have hmoves : 2 ^ 64 - (endTs.toInt - startTs.toInt) ≤
      (endBps.toInt - startBps.toInt) * (startTs.toInt + (2 ^ 63 - 1) - startTs.toInt) := by
    by_cases htwo : 2 ≤ endBps.toInt - startBps.toInt
    · have := Int.mul_le_mul_of_nonneg_right htwo
        (by omega : 0 ≤ startTs.toInt + (2 ^ 63 - 1) - startTs.toInt)
      omega
    · have : endBps.toInt - startBps.toInt = 1 := by omega
      rw [this]
      omega
  have hneg : endTs.toInt - startTs.toInt - 2 ^ 64 = -(2 ^ 64 - (endTs.toInt - startTs.toInt)) := by
    omega
  have hdown : 1 ≤ ((endBps.toInt - startBps.toInt) *
      (startTs.toInt + (2 ^ 63 - 1) - startTs.toInt)).tdiv
        (2 ^ 64 - (endTs.toInt - startTs.toInt)) := by
    rw [Int.tdiv_eq_ediv_of_nonneg (by omega)]
    exact (Int.le_ediv_iff_mul_le (by omega)).mpr (by omega)
  rw [hneg, Int.tdiv_neg] at hp
  omega

/-- A rising band over a window follows the exact line rounded down, inside its ends
and nowhere else, exactly when the window is measured right. -/
theorem premium_rises_iff (hb : startBps ≤ endBps) (ht : startTs < endTs) :
    RisesThroughBand startBps endBps startTs endTs ↔ Measured startBps endBps startTs endTs := by
  have hb' := Int16.le_iff_toInt_le.mp hb
  have ht' := Int64.lt_iff_toInt_lt.mp ht
  constructor
  · intro h
    by_contra hM
    obtain ⟨t, h₁, h₂, hbelow⟩ := premiumAt_below ht hb hM
    obtain ⟨p, -, hp, -, hin, -⟩ := h.rises t t h₁ (Int64.le_refl t) h₂
    exact absurd (hbelow p hp) (by omega)
  · intro hM
    have hn := Int.sub_pos_of_lt ht'
    refine ⟨?_, ?_, ?_, ?_, ?_⟩
    · intro t h₁ h₂
      obtain ⟨p, hp, hv⟩ := premiumAt_of_measured hb ht hM h₁ h₂
      exact ⟨p, hp, hv.trans (floor_exactly hn.le).symm⟩
    · intro t₁ t₂ h₁ h₂ h₃
      obtain ⟨p₁, hp₁, hv₁⟩ := premiumAt_of_measured hb ht hM h₁ (Int64.le_trans h₂ h₃)
      obtain ⟨p₂, hp₂, hv₂⟩ := premiumAt_of_measured hb ht hM (Int64.le_trans h₁ h₂) h₃
      have h₁' := Int64.le_iff_toInt_le.mp h₁
      have h₂' := Int64.le_iff_toInt_le.mp h₂
      have h₃' := Int64.le_iff_toInt_le.mp h₃
      refine ⟨p₁, p₂, hp₁, hp₂, ?_, Int32.le_iff_toInt_le.mpr ?_, ?_⟩
      · rw [hv₁]
        exact le_along hb' hn (Int.sub_nonneg_of_le h₁')
      · rw [hv₁, hv₂]
        exact along_le_along hb' hn (Int.sub_le_sub_right h₂' _)
      · rw [hv₂]
        exact along_le hb' hn (Int.sub_le_sub_right h₃' _)
    · obtain ⟨p, hp, hv⟩ := premiumAt_of_measured hb ht hM (Int64.le_refl _) (Int64.le_of_lt ht)
      rw [Int.sub_self, along_zero] at hv
      exact ⟨p, hp, hv⟩
    · obtain ⟨p, hp, hv⟩ := premiumAt_of_measured hb ht hM (Int64.le_of_lt ht) (Int64.le_refl _)
      rw [along_self _ _ (Int.ne_of_gt hn)] at hv
      exact ⟨p, hp, hv⟩
    · intro t hout
      unfold premiumAt failIf
      rw [if_pos hout]
      rfl

/-- The window of the test: `-50` to `150` over a thousand seconds. -/
theorem premium_rises_over_a_window : RisesThroughBand (-50) 150 1000 2000 :=
  (premium_rises_iff (by decide) (by decide)).mpr (.inl (by decide))

/-- Over the whole range of the clock the premium of a band from 0 to 100 is out of
the type halfway through. -/
theorem premium_overflows_midway : (0 : Int16) ≤ 100 ∧ Int64.minValue < Int64.maxValue ∧
    premiumAt 0 100 Int64.minValue Int64.maxValue 0 = .error .mathOverflow ∧
    ¬ RisesThroughBand 0 100 Int64.minValue Int64.maxValue := by
  have hfail : premiumAt 0 100 Int64.minValue Int64.maxValue 0 = .error .mathOverflow := by decide
  refine ⟨by decide, by decide, hfail, fun h => ?_⟩
  obtain ⟨p, hp, -⟩ := h.line 0 (by decide) (by decide)
  rw [hfail] at hp
  cases hp

end Premium

end Flock
