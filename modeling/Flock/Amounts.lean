import Flock.Encode
import Flock.Lib.Decimal
import Flock.Lib.DoubleError

/-!
# Amounts at the command line

A command takes whole tokens as a decimal and hands base units to the program. On the way
the decimal is a double, multiplied by 1e9 and rounded. `formatAmount` goes the other way
for display, and cuts off what it does not show.

Below 2 ^ 51 base units nothing of this loses anything: what was typed is what is sent
(`typed_amount_exact`), and what is shown, typed in again, is what was shown.
-/

namespace Flock.Cli

open Sdk Double Decimal Outcome

/-! ## Reading -/

inductive AmountError where
  /-- `"${value}" is not a number` -/
  | notANumber (value : JsString)
  | range (e : RangeError)
  deriving DecidableEq

def num (value : Option JsString) (fallback : Double) : Except AmountError Double :=
  match value with
  | none => .ok fallback
  | some value =>
    match ofText value with
    | .finite parsed => .ok (.finite parsed)
    | _ => .error (.notANumber value)

/-- `BigInt(Math.round(wholeTokens * 1e9))` -/
def baseUnits (wholeTokens : Double) : Except RangeError ℤ :=
  toBigInt (mathRound (mul wholeTokens (.finite 1000000000)))

/-- The amount of `issue` and `redeem`, from their argument. -/
def amountOf (argument : Option JsString) : Except AmountError ℤ := do
  let wholeTokens ← num argument (.finite 0)
  (baseUnits wholeTokens).mapError .range

/-! ## Showing -/

/-- `toString()` of a `bigint` -/
def bigintText (n : ℤ) : JsString :=
  if n < 0 then unit '-' :: numeral (digitsOf n.natAbs) else numeral (digitsOf n.natAbs)

/-- `padStart(width, "0")` -/
def padStartText (width : ℕ) (text : JsString) : JsString :=
  List.replicate (width - text.length) (unit '0') ++ text

def formatAmount (amount : ℤ) (decimals places : ℕ) : JsString :=
  let scale : ℤ := 10 ^ decimals
  let whole := amount.tdiv scale
  let fraction := (padStartText decimals (bigintText (amount.tmod scale))).take places
  if places > 0 then bigintText whole ++ [unit '.'] ++ fraction else bigintText whole

/-! ## There and back -/

theorem bigintText_natCast (n : ℕ) : bigintText n = numeral (digitsOf n) := by
  rw [bigintText, if_neg (by omega), Int.natAbs_natCast]

theorem padStartText_numeral (width : ℕ) (ds : List ℕ) :
    padStartText width (numeral ds) = numeral (Decimal.padStart width ds) := by
  rw [padStartText, Decimal.padStart, numeral, numeral, List.length_map, List.map_append,
    List.map_replicate]
  rfl

/-- The digits of `n` behind the point, as far as they are shown. -/
def shownFraction (n decimals places : ℕ) : List ℕ :=
  (Decimal.padStart decimals (digitsOf (n % 10 ^ decimals))).take places

theorem formatAmount_natCast (n decimals places : ℕ) : formatAmount n decimals places =
    if places > 0 then numeral (digitsOf (n / 10 ^ decimals)) ++
      unit '.' :: numeral (shownFraction n decimals places)
    else numeral (digitsOf (n / 10 ^ decimals)) := by
  have hscale : (10 : ℤ) ^ decimals = ((10 ^ decimals : ℕ) : ℤ) := by
    push_cast
    rfl
  have hdiv : (n : ℤ).tdiv ((10 ^ decimals : ℕ) : ℤ) = ((n / 10 ^ decimals : ℕ) : ℤ) :=
    Int.ofNat_tdiv n (10 ^ decimals)
  have hmod : (n : ℤ).tmod ((10 ^ decimals : ℕ) : ℤ) = ((n % 10 ^ decimals : ℕ) : ℤ) :=
    Int.ofNat_tmod n (10 ^ decimals)
  unfold formatAmount
  dsimp only
  have hshown : (numeral (Decimal.padStart decimals (digitsOf (n % 10 ^ decimals)))).take places
      = numeral (shownFraction n decimals places) := List.map_take.symm
  rw [hscale, hdiv, hmod, bigintText_natCast, bigintText_natCast, padStartText_numeral, hshown,
    List.append_assoc, List.singleton_append]

section

variable {n : ℕ}

/-- A double that is a fraction of 1e9 is as many base units. -/
theorem amountOf_round {text : JsString} (hn : n < 2 ^ 51)
    (htext : ofText text = Double.round ((n : ℚ) / 10 ^ 9)) : amountOf (some text) = .ok n := by
  have hscaled := mathRound_scaled hn (show 0 < 1000000000 by decide) (by decide)
  have hpow : ((10 : ℚ) ^ 9) = ((1000000000 : ℕ) : ℚ) := by norm_num
  rw [← hpow, ← htext] at hscaled
  obtain ⟨q, hq⟩ := finite_of_scaled hscaled
  have hunits : baseUnits (.finite q) = .ok n := by
    have hexact : mathRound (mul (.finite q) (.finite 1000000000)) = .finite ((n : ℤ) : ℚ) := by
      rw [← hq]
      exact_mod_cast hscaled
    rw [baseUnits, hexact, toBigInt_intCast]
  rw [amountOf, num, hq]
  show (baseUnits (.finite q)).mapError AmountError.range = .ok (n : ℤ)
  rw [hunits]
  rfl

theorem scaled_fraction (v : ℕ) {k : ℕ} (hk : k ≤ 9) :
    (v : ℚ) / 10 ^ k = ((v * 10 ^ (9 - k) : ℕ) : ℚ) / 10 ^ 9 := by
  have hsplit : (10 : ℚ) ^ 9 = 10 ^ k * 10 ^ (9 - k) := by
    rw [← pow_add]
    congr 1
    omega
  rw [hsplit]
  push_cast
  exact (mul_div_mul_right _ _ (by positivity)).symm

theorem amountOf_written {ws : List ℕ} {fraction : Option (List ℕ)}
    (hdigits : ∀ d ∈ ws ++ fraction.getD [], d < 10) (hne : ws ++ fraction.getD [] ≠ [])
    (hplaces : (fraction.getD []).length ≤ 9)
    (hsmall : value (ws ++ fraction.getD []) * 10 ^ (9 - (fraction.getD []).length) < 2 ^ 51) :
    amountOf (some (written ws fraction)) = .ok ((value (ws ++ fraction.getD [])
      * 10 ^ (9 - (fraction.getD []).length) : ℕ) : ℤ) := by
  apply amountOf_round hsmall
  rw [ofText_written hdigits hne]
  congr 1
  exact scaled_fraction (value (ws ++ fraction.getD [])) hplaces

theorem length_shownFraction {decimals : ℕ} (hd : 0 < decimals) (n places : ℕ) :
    (shownFraction n decimals places).length = min places decimals := by
  have hlt : n % 10 ^ decimals < 10 ^ decimals := Nat.mod_lt n (by positivity)
  rw [shownFraction, List.length_take, length_padStart (length_digitsOf_le hd hlt)]

theorem shownFraction_lt (n decimals places : ℕ) : ∀ d ∈ shownFraction n decimals places, d < 10 :=
  fun d hd => padStart_lt (digitsOf_lt _) d (List.mem_of_mem_take hd)

/-- All that is shown, as one number. -/
theorem value_shown {decimals : ℕ} (hd : 0 < decimals) (n places : ℕ) :
    value (digitsOf (n / 10 ^ decimals) ++ shownFraction n decimals places)
      = n / 10 ^ (decimals - min places decimals) := by
  have hlt : n % 10 ^ decimals < 10 ^ decimals := Nat.mod_lt n (by positivity)
  have hlen := length_padStart (length_digitsOf_le hd hlt)
  have hvalue : value (shownFraction n decimals places)
      = n % 10 ^ decimals / 10 ^ (decimals - places) := by
    rw [shownFraction, value_take places (padStart_lt (digitsOf_lt _)), hlen, value_padStart,
      value_digitsOf]
  have hexp : decimals - places = decimals - min places decimals := by omega
  have hsplit : 10 ^ decimals
      = 10 ^ min places decimals * 10 ^ (decimals - min places decimals) := by
    rw [← pow_add]
    congr 1
    omega
  rw [value_append, length_shownFraction hd, value_digitsOf, hvalue, hexp]
  -- the whole tokens and the shown part of the rest, both in units of the last place shown
  have hn := Nat.div_add_mod n (10 ^ decimals)
  have hpos : 0 < 10 ^ (decimals - min places decimals) := by positivity
  conv_rhs => rw [← hn, hsplit, Nat.mul_comm (10 ^ min places decimals), Nat.mul_assoc,
    Nat.mul_add_div hpos]
  rw [hsplit, Nat.mul_comm (10 ^ min places decimals)]
  ring

/-- What is typed with nine places or fewer is what is sent: whole tokens without a point,
and any other amount with the point among, before or behind its digits. -/
theorem typed_amount_exact {ws : List ℕ} {fraction : Option (List ℕ)}
    (hdigits : ∀ d ∈ ws ++ fraction.getD [], d < 10) (hne : ws ++ fraction.getD [] ≠ [])
    (hplaces : (fraction.getD []).length ≤ 9)
    (hsmall : value (ws ++ fraction.getD []) * 10 ^ (9 - (fraction.getD []).length) < 2 ^ 51) :
    amountOf (some (written ws fraction)) = .ok ((value (ws ++ fraction.getD [])
      * 10 ^ (9 - (fraction.getD []).length) : ℕ) : ℤ) :=
  amountOf_written hdigits hne hplaces hsmall

/-- What a command shows of an amount and reads back is the amount as far as it was shown. -/
theorem shown_amount_read_back {n : ℕ} (hn : n < 2 ^ 51) (places : ℕ) :
    amountOf (some (formatAmount n 9 places)) = .ok ((n - n % 10 ^ (9 - places) : ℕ) : ℤ) := by
  have hdown : n - n % 10 ^ (9 - places) = n / 10 ^ (9 - places) * 10 ^ (9 - places) := by
    have hn' := Nat.div_add_mod' n (10 ^ (9 - places))
    omega
  have hsmall : n / 10 ^ (9 - places) * 10 ^ (9 - places) < 2 ^ 51 :=
    lt_of_le_of_lt (Nat.div_mul_le_self n _) hn
  rw [formatAmount_natCast, hdown]
  by_cases hplaces : places > 0
  · have hexp : 9 - min places 9 = 9 - places := by omega
    have hlen := length_shownFraction (show 0 < 9 by decide) n places
    have hvalue := value_shown (show 0 < 9 by decide) n places
    rw [hexp] at hvalue
    have hdigits : ∀ d ∈ digitsOf (n / 10 ^ 9) ++ shownFraction n 9 places, d < 10 := by
      intro d hd
      exact (List.mem_append.mp hd).elim (digitsOf_lt _ d) (shownFraction_lt n 9 places d)
    have hne := List.append_ne_nil_of_left_ne_nil (digitsOf_ne_nil (n / 10 ^ 9))
      (shownFraction n 9 places)
    have hshown : (shownFraction n 9 places).length ≤ 9 := by omega
    have hexact := @amountOf_written _ (some (shownFraction n 9 places)) hdigits hne hshown
    rw [Option.getD_some, hlen, hexp, hvalue] at hexact
    rw [if_pos hplaces]
    exact hexact hsmall
  · -- nothing behind the point is shown
    obtain rfl : places = 0 := by omega
    rw [if_neg hplaces]
    apply amountOf_round hsmall
    rw [ofText_whole (digitsOf_lt _) (digitsOf_ne_nil _), value_digitsOf]
    congr 1
    push_cast
    exact (mul_div_cancel_right₀ _ (by norm_num)).symm

end

/-- Twelve and a half tokens, typed as `12.50`, ten, typed as `10`, and a half, as `.5`. -/
theorem typed_amount_exact_half :
    amountOf (some ("12.50".toList.map unit)) = .ok 12500000000 ∧
      amountOf (some ("10".toList.map unit)) = .ok 10000000000 ∧
      amountOf (some (".5".toList.map unit)) = .ok 500000000 :=
  ⟨@typed_amount_exact [1, 2] (some [5, 0]) (by decide) (by decide) (by decide) (by decide),
    @typed_amount_exact [1, 0] none (by decide) (by decide) (by decide) (by decide),
    @typed_amount_exact [] (some [5]) (by decide) (by decide) (by decide) (by decide)⟩

/-- 1.23456789 tokens are shown as `1.234567`. -/
theorem shown_amount_read_back_cut : formatAmount 1234567890 9 6 = "1.234567".toList.map unit ∧
    amountOf (some (formatAmount 1234567890 9 6)) = .ok 1234567000 :=
  ⟨by decide, shown_amount_read_back (n := 1234567890) (by decide) 6⟩

end Flock.Cli
