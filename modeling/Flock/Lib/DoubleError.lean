import Flock.Lib.Double
import Mathlib.Data.Nat.Cast.Order.Field
import Mathlib.Tactic.FieldSimp
import Mathlib.Tactic.Positivity
import Mathlib.Tactic.Ring

/-!
# How far a double is off

Rounding to the nearest double moves a number by half of its last place, which is one part
in 2 ^ 53 of it unless the number is tiny, and it keeps the order. Multiplication, rounding
to a whole number and the way into a `bigint` follow. A decimal fraction becomes a double,
is scaled up and rounded: it is back where it came from, if it has fewer than 51 bits
(`mathRound_scaled`). A `bigint` compared as a double with a floor is the floor or more,
exactly up to 2 ^ 53 and up to one part in 2 ^ 53 above (`scaled_le_of_ofBigInt`). Whole
numbers below 2 ^ 53 are divided and cut as integers are (`mathTrunc_div_natCast`).
-/

namespace Double

/-! ## Half and even -/

/-- Rounding goes down by half at most, or up by half at most. -/
theorem halfEven_cases (q : ℚ) :
    (halfEven q = ⌊q⌋ ∧ q - ⌊q⌋ ≤ 1 / 2) ∨ (halfEven q = ⌊q⌋ + 1 ∧ 1 / 2 ≤ q - ⌊q⌋) := by
  unfold halfEven
  by_cases hdown : q - ⌊q⌋ < 1 / 2 ∨ q - ⌊q⌋ = 1 / 2 ∧ ⌊q⌋ % 2 = 0
  · rw [if_pos hdown]
    rcases hdown with hlt | ⟨htie, -⟩
    · exact .inl ⟨rfl, hlt.le⟩
    · exact .inl ⟨rfl, htie.le⟩
  · rw [if_neg hdown]
    rw [not_or, not_lt] at hdown
    exact .inr ⟨rfl, hdown.1⟩

/-- Rounding moves a number by half at most. -/
theorem abs_halfEven_sub_le (q : ℚ) : |(halfEven q : ℚ) - q| ≤ 1 / 2 := by
  have hfloor := Int.floor_le q
  have hlt := Int.lt_floor_add_one q
  rcases halfEven_cases q with ⟨hq, hle⟩ | ⟨hq, hge⟩
  · rw [hq, abs_le]
    constructor <;> linarith
  · rw [hq, abs_le]
    push_cast
    constructor <;> linarith

/-- Rounding keeps the order. -/
theorem halfEven_mono {q r : ℚ} (h : q ≤ r) : halfEven q ≤ halfEven r := by
  have hfloor : ⌊q⌋ ≤ ⌊r⌋ := Int.floor_le_floor h
  by_cases hsame : ⌊q⌋ = ⌊r⌋
  · -- in one unit, and whichever way a tie goes it goes for both
    unfold halfEven
    rw [hsame]
    by_cases hr : r - ⌊r⌋ < 1 / 2 ∨ r - ⌊r⌋ = 1 / 2 ∧ ⌊r⌋ % 2 = 0
    · have hq : q - ⌊r⌋ < 1 / 2 ∨ q - ⌊r⌋ = 1 / 2 ∧ ⌊r⌋ % 2 = 0 := by
        rcases hr with hlt | ⟨htie, heven⟩
        · exact .inl (by linarith)
        · rcases h.lt_or_eq with hlt | rfl
          · exact .inl (by linarith)
          · exact .inr ⟨htie, heven⟩
      rw [if_pos hr, if_pos hq]
    · rw [if_neg hr]
      split
      · omega
      · exact le_refl _
  · have hq : halfEven q ≤ ⌊q⌋ + 1 := by
      rcases halfEven_cases q with ⟨hq, -⟩ | ⟨hq, -⟩ <;> omega
    have hr : ⌊r⌋ ≤ halfEven r := by
      rcases halfEven_cases r with ⟨hr, -⟩ | ⟨hr, -⟩ <;> omega
    omega

/-! ## The nearest double -/

/-- A last place is positive. -/
theorem place_pos (q : ℚ) : (0 : ℚ) < 2 ^ lastPlace q := zpow_pos (by norm_num) _

/-- What is not negative is not rounded below zero. -/
theorem nearest_nonneg {q : ℚ} (h : 0 ≤ q) : 0 ≤ nearest q := by
  have hquot : (0 : ℚ) ≤ q / 2 ^ lastPlace q := div_nonneg h (place_pos q).le
  have hhalf : 0 ≤ halfEven (q / 2 ^ lastPlace q) := by
    have hmono := halfEven_mono hquot
    rwa [show halfEven 0 = 0 from halfEven_intCast 0] at hmono
  exact mul_nonneg (by exact_mod_cast hhalf) (place_pos q).le

/-- Half of the last place, and no more. -/
theorem abs_nearest_sub_le_place (q : ℚ) : |nearest q - q| ≤ 2 ^ lastPlace q / 2 := by
  have hpos := place_pos q
  have hsplit : nearest q - q
      = (halfEven (q / 2 ^ lastPlace q) - q / 2 ^ lastPlace q) * 2 ^ lastPlace q := by
    rw [nearest, sub_mul, div_mul_cancel₀ q hpos.ne']
  rw [hsplit, abs_mul, abs_of_pos hpos]
  calc |(halfEven (q / 2 ^ lastPlace q) : ℚ) - q / 2 ^ lastPlace q| * 2 ^ lastPlace q
      ≤ 1 / 2 * 2 ^ lastPlace q :=
        mul_le_mul_of_nonneg_right (abs_halfEven_sub_le _) hpos.le
    _ = 2 ^ lastPlace q / 2 := by ring

/-- One part in 2 ^ 53, of anything that is not tiny. -/
theorem abs_nearest_sub_le {q : ℚ} (h : 2 ^ (-1022 : ℤ) ≤ q) :
    |nearest q - q| ≤ q / 2 ^ 53 := by
  have hpos : 0 < q := lt_of_lt_of_le (zpow_pos (by norm_num) _) h
  have hlog : -1022 ≤ Int.log 2 q := (Int.zpow_le_iff_le_log (by decide) hpos).mp h
  have hplace : lastPlace q = Int.log 2 q - 52 := max_eq_left (by omega)
  have hle : (2 : ℚ) ^ Int.log 2 q ≤ q := Int.zpow_log_le_self (by decide) hpos
  refine (abs_nearest_sub_le_place q).trans ?_
  rw [hplace, zpow_sub₀ (by norm_num)]
  calc (2 : ℚ) ^ Int.log 2 q / 2 ^ (52 : ℤ) / 2
      ≤ q / 2 ^ (52 : ℤ) / 2 := by gcongr
    _ = q / 2 ^ 53 := by
        rw [div_div]
        norm_num

/-- A power of two is a multiple of any last place below it. -/
theorem exists_multiple {q : ℚ} {e : ℤ} (he : lastPlace q ≤ e) :
    ∃ n : ℤ, (2 : ℚ) ^ e = n * 2 ^ lastPlace q := by
  obtain ⟨k, hk⟩ := Int.eq_ofNat_of_zero_le (sub_nonneg.mpr he)
  refine ⟨2 ^ k, ?_⟩
  have hsum : e = (k : ℤ) + lastPlace q := by omega
  rw [hsum, zpow_add₀ (by norm_num), zpow_natCast]
  push_cast
  rfl

/-- A power of two above a number stays above it. -/
theorem nearest_le_zpow {q : ℚ} {e : ℤ} (hq : q ≤ 2 ^ e) (he : lastPlace q ≤ e) :
    nearest q ≤ 2 ^ e := by
  obtain ⟨n, hn⟩ := exists_multiple he
  have hquot : q / 2 ^ lastPlace q ≤ n := by
    rw [div_le_iff₀ (place_pos q), ← hn]
    exact hq
  have hhalf := halfEven_mono hquot
  rw [halfEven_intCast] at hhalf
  rw [nearest, hn]
  exact mul_le_mul_of_nonneg_right (by exact_mod_cast hhalf) (place_pos q).le

/-- A power of two below a number stays below it. -/
theorem zpow_le_nearest {q : ℚ} {e : ℤ} (hq : 2 ^ e ≤ q) (he : lastPlace q ≤ e) :
    2 ^ e ≤ nearest q := by
  obtain ⟨n, hn⟩ := exists_multiple he
  have hquot : (n : ℚ) ≤ q / 2 ^ lastPlace q := by
    rw [le_div_iff₀ (place_pos q), ← hn]
    exact hq
  have hhalf := halfEven_mono hquot
  rw [halfEven_intCast] at hhalf
  rw [nearest, hn]
  exact mul_le_mul_of_nonneg_right (by exact_mod_cast hhalf) (place_pos q).le

/-- Zero is a double. -/
theorem nearest_zero : nearest 0 = 0 := by
  rw [nearest, zero_div, show halfEven 0 = 0 from halfEven_intCast 0, Int.cast_zero, zero_mul]

/-- The nearest doubles keep the order. -/
theorem nearest_mono {q r : ℚ} (hq : 0 ≤ q) (h : q ≤ r) : nearest q ≤ nearest r := by
  rcases hq.eq_or_lt with rfl | hpos
  · rw [nearest_zero]
    exact nearest_nonneg h
  · have hrpos : 0 < r := hpos.trans_le h
    have hlog : Int.log 2 q ≤ Int.log 2 r := Int.log_mono_right hpos h
    by_cases hsame : lastPlace q = lastPlace r
    · have hquot : q / 2 ^ lastPlace r ≤ r / 2 ^ lastPlace r :=
        div_le_div_of_nonneg_right h (place_pos r).le
      rw [nearest, nearest, hsame]
      exact mul_le_mul_of_nonneg_right (by exact_mod_cast halfEven_mono hquot) (place_pos r).le
    · -- the power of two below `r` lies between them
      have hless : lastPlace q < Int.log 2 r - 52 ∧ lastPlace r = Int.log 2 r - 52 := by
        unfold lastPlace at hsame ⊢
        omega
      obtain ⟨hless, hplace⟩ := hless
      have hbelow : q ≤ 2 ^ Int.log 2 r := by
        by_contra hnot
        have hge : Int.log 2 r ≤ Int.log 2 q :=
          (Int.zpow_le_iff_le_log (by decide) hpos).mp (not_le.mp hnot).le
        unfold lastPlace at hless
        omega
      have habove : (2 : ℚ) ^ Int.log 2 r ≤ r := Int.zpow_log_le_self (by decide) hrpos
      exact (nearest_le_zpow hbelow (by omega)).trans (zpow_le_nearest habove (by omega))

/-! ## Operations -/

/-- `*` -/
def mul : Double → Double → Double
  | .finite a, .finite b => round (a * b)
  | .infinity s, .infinity t => .infinity (s != t)
  | .infinity s, .finite b => if b = 0 then .nan else .infinity (s != decide (b < 0))
  | .finite a, .infinity t => if a = 0 then .nan else .infinity (decide (a < 0) != t)
  | _, _ => .nan

/-- `/`. Below a zero, which has no sign here, what is not zero is infinite with its own. -/
def div : Double → Double → Double
  | .finite a, .finite b =>
    if b ≠ 0 then round (a / b) else if a = 0 then .nan else .infinity (a < 0)
  | .finite _, .infinity _ => .finite 0
  | .infinity s, .finite b => .infinity (s != decide (b < 0))
  | _, _ => .nan

/-- `Math.trunc` -/
def mathTrunc : Double → Double
  | .finite q => .finite (if q < 0 then ⌈q⌉ else ⌊q⌋)
  | x => x

/-- `Math.round`: halves go up. -/
def mathRound : Double → Double
  | .finite q => .finite ⌊q + 1 / 2⌋
  | x => x

/-- What `BigInt` throws for a number that is not whole. -/
inductive RangeError where
  | notInteger
  deriving DecidableEq, Repr

/-- `BigInt(number)` -/
def toBigInt : Double → Except RangeError ℤ
  | .finite q => if q = ⌊q⌋ then .ok ⌊q⌋ else .error .notInteger
  | _ => .error .notInteger

/-- A whole double is a `bigint`. -/
theorem toBigInt_intCast (n : ℤ) : toBigInt (.finite n) = .ok n := by
  rw [toBigInt, Int.floor_intCast, if_pos rfl]

/-- `BigInt(Math.round(x))` is what `x` is nearest to. -/
theorem toBigInt_mathRound (q : ℚ) : toBigInt (mathRound (.finite q)) = .ok ⌊q + 1 / 2⌋ :=
  toBigInt_intCast _

/-- What is finite after scaling and rounding was finite before. -/
theorem finite_of_scaled {x : Double} {s r : ℚ} (h : mathRound (mul x (.finite s)) = .finite r) :
    ∃ q, x = .finite q := by
  cases x with
  | finite q => exact ⟨q, rfl⟩
  | nan => cases h
  | infinity negative =>
    rw [mul] at h
    split at h <;> cases h

/-- What is not negative and does not overflow is rounded to the nearest. -/
theorem round_of_nonneg {q : ℚ} (h : 0 ≤ q) (hfits : nearest q < 2 ^ 1024) :
    round q = .finite (nearest q) := by
  rw [round, abs_of_nonneg h, if_pos hfits, if_neg (not_lt.mpr h)]

/-- What is small stays small. -/
theorem nearest_lt {q : ℚ} {e : ℤ} (h : q ≤ 2 ^ e) (hq : 0 ≤ q) (he : e < 1024) :
    nearest q < 2 ^ 1024 := by
  have hmono := nearest_mono hq h
  have hself : nearest (2 ^ e) ≤ 2 ^ max e (-1074) := by
    apply nearest_le_zpow
    · exact zpow_le_zpow_right₀ (by norm_num) (le_max_left _ _)
    · have hlog : Int.log 2 ((2 : ℚ) ^ e) = e := Int.log_zpow (by decide) e
      rw [lastPlace, hlog]
      omega
  have hlt : (2 : ℚ) ^ max e (-1074) < 2 ^ (1024 : ℤ) :=
    zpow_lt_zpow_right₀ (by norm_num) (by omega)
  have hpow : (2 : ℚ) ^ (1024 : ℤ) = 2 ^ 1024 := zpow_natCast 2 1024
  rw [hpow] at hlt
  exact (hmono.trans hself).trans_lt hlt

/-! ## Scaling a decimal back up -/

/-- One part in 2 ^ 53 is not tiny. -/
theorem le_of_one_le {q : ℚ} (h : 1 / 2 ^ 53 ≤ q) : (2 : ℚ) ^ (-1022 : ℤ) ≤ q := by
  refine le_trans ?_ h
  calc (2 : ℚ) ^ (-1022 : ℤ) ≤ 2 ^ (-53 : ℤ) := zpow_le_zpow_right₀ (by norm_num) (by norm_num)
    _ = 1 / 2 ^ 53 := by norm_num

/-- What is not tiny is not rounded to zero. -/
theorem nearest_pos {q : ℚ} (h : 1 / 2 ^ 53 ≤ q) : 0 < nearest q := by
  have hpos : 0 < q := lt_of_lt_of_le (by norm_num) h
  have herror := (abs_le.mp (abs_nearest_sub_le (le_of_one_le h))).1
  have hsmall : q / 2 ^ 53 < q := div_lt_self hpos (by norm_num)
  linarith

/-- A number that is off by one part in 2 ^ 53 from a whole one below 2 ^ 51 is rounded to
it, the last bit of its double included. -/
theorem mathRound_near {n : ℕ} {q : ℚ} (hn : n < 2 ^ 51) (hpos : 0 < n)
    (hq : |q - n| ≤ n / 2 ^ 53) : mathRound (round q) = .finite n := by
  have hone : (1 : ℚ) ≤ n := by exact_mod_cast hpos
  have hmax : (n : ℚ) ≤ 2251799813685247 := by
    have hle : n ≤ 2251799813685247 := by omega
    exact_mod_cast hle
  have hbits : (2 : ℚ) ^ 53 = 9007199254740992 := by norm_num
  rw [hbits] at hq
  obtain ⟨hlow, hhigh⟩ := abs_le.mp hq
  have hlarge : 1 / 2 ^ 53 ≤ q := by
    rw [hbits]
    linarith
  have hsmall : q ≤ 2 ^ (52 : ℤ) := by
    have hroom : (2 : ℚ) ^ (52 : ℤ) = 4503599627370496 := by norm_num
    rw [hroom]
    linarith
  have hq0 : 0 ≤ q := le_trans (by norm_num) hlarge
  have herror := abs_nearest_sub_le (le_of_one_le hlarge)
  rw [hbits] at herror
  obtain ⟨hbelow, habove⟩ := abs_le.mp herror
  rw [round_of_nonneg hq0 (nearest_lt hsmall hq0 (by decide)), mathRound]
  have hfloor : ⌊nearest q + 1 / 2⌋ = (n : ℤ) := by
    rw [Int.floor_eq_iff, Int.cast_natCast]
    constructor <;> linarith
  rw [hfloor, Int.cast_natCast]

/-- The fraction `n / s` as a double, times `s`, rounded: it is `n` again. -/
theorem mathRound_scaled {n s : ℕ} (hn : n < 2 ^ 51) (hs : 0 < s) (hs' : s ≤ 2 ^ 53) :
    mathRound (mul (round (n / s)) (.finite s)) = .finite n := by
  have hspos : (0 : ℚ) < s := by exact_mod_cast hs
  have hsle : (s : ℚ) ≤ 2 ^ 53 := by exact_mod_cast hs'
  rcases Nat.eq_zero_or_pos n with rfl | hpos
  · have hzero : round 0 = .finite 0 := by
      rw [round_of_nonneg (le_refl 0) (by rw [nearest_zero]; norm_num), nearest_zero]
    rw [Nat.cast_zero, zero_div, hzero, mul, zero_mul, hzero, mathRound]
    norm_num
  · have hone : (1 : ℚ) ≤ n := by exact_mod_cast hpos
    have hlarge : 1 / 2 ^ 53 ≤ (n : ℚ) / s := by
      calc (1 : ℚ) / 2 ^ 53 ≤ 1 / s := one_div_le_one_div_of_le hspos hsle
        _ ≤ n / s := by gcongr
    have hsmall : (n : ℚ) / s ≤ 2 ^ (51 : ℤ) := by
      have hle : (n : ℚ) ≤ 2 ^ (51 : ℤ) := by
        rw [show (2 : ℚ) ^ (51 : ℤ) = 2 ^ 51 from zpow_natCast 2 51]
        exact_mod_cast hn.le
      exact (div_le_self (Nat.cast_nonneg n) (by exact_mod_cast hs)).trans hle
    have hq0 : 0 ≤ (n : ℚ) / s := le_trans (by norm_num) hlarge
    rw [round_of_nonneg hq0 (nearest_lt hsmall hq0 (by decide)), mul]
    apply mathRound_near hn hpos
    -- the error of the fraction, scaled up with it
    have herror := abs_nearest_sub_le (le_of_one_le hlarge)
    have hscaled : nearest (n / s) * s - n = (nearest (n / s) - n / s) * s := by
      rw [sub_mul, div_mul_cancel₀ _ hspos.ne']
    rw [hscaled, abs_mul, abs_of_pos hspos]
    calc |nearest ((n : ℚ) / s) - n / s| * s ≤ n / s / 2 ^ 53 * s := by gcongr
      _ = n / 2 ^ 53 := by field_simp

/-! ## A `bigint` held to a floor -/

section Floor

variable {n m : ℤ}

/-- What is not below a floor of one or more is not negative. -/
theorem pos_of_ofBigInt (hm : 1 ≤ m) (h : (ofBigInt n).lt (.finite m) = false) : 0 < n := by
  by_contra hn
  have hle : (n : ℚ) ≤ 0 := by exact_mod_cast not_lt.mp hn
  have hmpos : (0 : ℚ) < m := by exact_mod_cast hm
  have habs := nearest_nonneg (abs_nonneg (n : ℚ))
  rw [ofBigInt, round] at h
  split at h
  next =>
    rw [lt, decide_eq_false_iff_not, not_lt] at h
    split at h
    next => linarith
    next hnonneg =>
      -- the zero
      rw [le_antisymm hle (not_lt.mp hnonneg), abs_zero, nearest_zero] at h
      linarith
  next hlarge =>
    rw [lt, decide_eq_false_iff_not, not_lt] at h
    rw [le_antisymm hle h, abs_zero, nearest_zero] at hlarge
    exact hlarge (by norm_num)

/-- A `bigint` above the largest double is infinite, and no floor is. -/
theorem le_nearest_of_ofBigInt (hm : 1 ≤ m) (hfits : (m : ℚ) < 2 ^ 1024)
    (h : (ofBigInt n).lt (.finite m) = false) : (m : ℚ) ≤ nearest n := by
  have hn : (0 : ℚ) ≤ n := by exact_mod_cast (pos_of_ofBigInt hm h).le
  by_cases hlarge : nearest (n : ℚ) < 2 ^ 1024
  · rw [ofBigInt, round_of_nonneg hn hlarge, lt, decide_eq_false_iff_not, not_lt] at h
    exact h
  · exact hfits.le.trans (not_lt.mp hlarge)

/-- What is not below a floor after rounding falls short of it by one part in 2 ^ 53 at
most. -/
theorem scaled_le_of_ofBigInt (hm : 1 ≤ m) (hfits : (m : ℚ) < 2 ^ 1024)
    (h : (ofBigInt n).lt (.finite m) = false) : m * 2 ^ 53 ≤ n * (2 ^ 53 + 1) := by
  have hn : (1 : ℚ) ≤ n := by exact_mod_cast pos_of_ofBigInt hm h
  have hle := le_nearest_of_ofBigInt hm hfits h
  have hlarge : 1 / 2 ^ 53 ≤ (n : ℚ) := le_trans (by norm_num) hn
  have herror := (abs_le.mp (abs_nearest_sub_le (le_of_one_le hlarge))).2
  have hsum : (m : ℚ) ≤ n + n / 2 ^ 53 := by linarith
  have hscaled : (m : ℚ) * 2 ^ 53 ≤ n * (2 ^ 53 + 1) := by
    calc (m : ℚ) * 2 ^ 53 ≤ ((n : ℚ) + n / 2 ^ 53) * 2 ^ 53 := by gcongr
      _ = (n : ℚ) * (2 ^ 53 + 1) := by ring
  exact_mod_cast hscaled

/-- Up to 2 ^ 53 a floor is the floor of the `bigint` itself. -/
theorem le_of_ofBigInt (hm : 1 ≤ m) (hfits : m ≤ 2 ^ 53)
    (h : (ofBigInt n).lt (.finite m) = false) : m ≤ n := by
  by_contra hlt
  have hpos := pos_of_ofBigInt hm h
  have hexact : ofBigInt n = .finite n := round_intCast (by omega)
  rw [hexact, lt, decide_eq_false_iff_not, not_lt] at h
  exact hlt (by exact_mod_cast h)

end Floor

/-! ## Quotients of whole numbers -/

/-- A product of whole numbers up to 2 ^ 53 is exact. -/
theorem mul_intCast {a b : ℤ} (h : (a * b).natAbs ≤ 2 ^ 53) :
    mul (.finite a) (.finite b) = .finite ((a * b : ℤ) : ℚ) := by
  show round (a * b) = _
  rw [← Int.cast_mul]
  exact round_intCast h

/-- A quotient that is not whole is further from the next whole number than rounding moves
it. -/
theorem floor_nearest_div {a b : ℕ} (ha : a < 2 ^ 53) (hb : 0 < b) (hb' : b ≤ 2 ^ 53) :
    ⌊nearest ((a : ℚ) / b)⌋ = (a / b : ℕ) := by
  have hbpos : (0 : ℚ) < b := by exact_mod_cast hb
  have hquot : ((a / b : ℕ) : ℚ) ≤ a / b := Nat.cast_div_le
  have hle : a / b ≤ 2 ^ 53 := (Nat.div_le_self a b).trans ha.le
  rw [Int.floor_eq_iff]
  constructor
  · have hmono := nearest_mono (Nat.cast_nonneg _) hquot
    rw [nearest_natCast hle] at hmono
    exact_mod_cast hmono
  · rcases Nat.eq_zero_or_pos a with rfl | hpos
    · rw [Nat.cast_zero, zero_div, nearest_zero]
      positivity
    · have hlarge : 1 / 2 ^ 53 ≤ (a : ℚ) / b := by
        have hone : (1 : ℚ) ≤ a := by exact_mod_cast hpos
        have hbig : (b : ℚ) ≤ 2 ^ 53 := by exact_mod_cast hb'
        gcongr
      have herror := (abs_le.mp (abs_nearest_sub_le (le_of_one_le hlarge))).2
      -- one part in `b` is left to the next whole number
      have hroom : (a : ℚ) / b + 1 / b ≤ (a / b : ℕ) + 1 := by
        have hnext : a + 1 ≤ (a / b + 1) * b := by
          have hsplit := Nat.div_add_mod a b
          have hmod := Nat.mod_lt a hb
          rw [Nat.add_mul, Nat.mul_comm]
          omega
        rw [← add_div, div_le_iff₀ hbpos]
        exact_mod_cast hnext
      have hmove : (a : ℚ) / b / 2 ^ 53 < 1 / b := by
        have hsmall : (a : ℚ) < 2 ^ 53 := by exact_mod_cast ha
        rw [div_div, div_lt_div_iff₀ (by positivity) hbpos]
        nlinarith
      rw [Int.cast_natCast]
      linarith

/-- Division of small whole numbers and the cut after it are those of the integers. -/
theorem mathTrunc_div_natCast {a b : ℕ} (ha : a < 2 ^ 53) (hb : 0 < b) (hb' : b ≤ 2 ^ 53) :
    mathTrunc (div (.finite a) (.finite b)) = .finite (a / b : ℕ) := by
  have hne : (b : ℚ) ≠ 0 := by exact_mod_cast hb.ne'
  have hnonneg : (0 : ℚ) ≤ a / b := by positivity
  have hfloor := floor_nearest_div ha hb hb'
  have hfits : nearest ((a : ℚ) / b) < 2 ^ 1024 := by
    have hle : (a : ℚ) / b ≤ 2 ^ (53 : ℤ) := by
      have hone : (1 : ℚ) ≤ b := by exact_mod_cast hb
      have hsmall : (a : ℚ) ≤ 2 ^ (53 : ℤ) := by exact_mod_cast ha.le
      exact (div_le_self (Nat.cast_nonneg a) hone).trans hsmall
    exact nearest_lt hle hnonneg (by norm_num)
  rw [div, if_pos hne, round_of_nonneg hnonneg hfits, mathTrunc,
    if_neg (not_lt.mpr (nearest_nonneg hnonneg)), hfloor]
  norm_cast

end Double
