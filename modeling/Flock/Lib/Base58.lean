import Mathlib.Algebra.BigOperators.Group.List.Basic
import Mathlib.Data.Nat.Digits.Lemmas

/-!
# Base 58

Bytes as text: the number they are, big-endian, in base 58, with one `1` in front for
every zero byte in front. A number of a known width is read back from its text.
-/

namespace Base58

/-- The digits of `n`, the last one first. -/
def digits (b : ℕ) : (fuel n : ℕ) → List ℕ
  | 0, _ => []
  | fuel + 1, n => if n = 0 then [] else n % b :: digits b fuel (n / b)

theorem ofDigits_digits {b : ℕ} (hb : 0 < b) {fuel n : ℕ} (h : n < b ^ fuel) :
    Nat.ofDigits b (digits b fuel n) = n := by
  induction fuel generalizing n with
  | zero => exact (Nat.lt_one_iff.mp h).symm
  | succ fuel ih =>
    by_cases hzero : n = 0
    · rw [digits, if_pos hzero, hzero]
      rfl
    · rw [digits, if_neg hzero, Nat.ofDigits_cons, ih]
      · exact Nat.mod_add_div n b
      · rw [Nat.div_lt_iff_lt_mul hb, ← Nat.pow_succ]
        exact h

theorem digits_lt {b : ℕ} (hb : 0 < b) (fuel n : ℕ) : ∀ d ∈ digits b fuel n, d < b := by
  induction fuel generalizing n with
  | zero => exact fun d hd => absurd hd List.not_mem_nil
  | succ fuel ih =>
    intro d hd
    rw [digits] at hd
    split at hd
    next => exact absurd hd List.not_mem_nil
    next =>
      rcases List.mem_cons.mp hd with rfl | hd
      · exact Nat.mod_lt n hb
      · exact ih _ d hd

/-- The digits and letters without `0`, `O`, `I` and `l`. -/
def alphabet : List UInt16 :=
  (List.range' 49 9 ++ List.range' 65 8 ++ List.range' 74 5 ++ List.range' 80 11
    ++ List.range' 97 11 ++ List.range' 109 14).map UInt16.ofNat

/-- The zero bytes in front of a number of `width` bytes. -/
def leadingZeroes (width n : ℕ) : ℕ := width - (digits 256 width n).length

/-- Text of `2 * width` digits at most, which is more than enough. -/
def encode (width n : ℕ) : List UInt16 :=
  (List.replicate (leadingZeroes width n) 0 ++ (digits 58 (2 * width) n).reverse).map fun d =>
    alphabet.getD d 0

/-- The bytes the text stands for have to be `width`. -/
def decode? (width : ℕ) (text : List UInt16) : Option ℕ := do
  let ds ← text.mapM fun u => (alphabet.idxOf? u)
  let n := Nat.ofDigits 58 ds.reverse
  let zeroes := (ds.takeWhile (· = 0)).length
  if zeroes + (digits 256 width n).length = width ∧ n < 256 ^ width then some n else none

theorem idxOf_alphabet : ∀ d < 58, alphabet.idxOf (alphabet.getD d 0) = d := by
  decide

/-- The number is what the digits of its text add up to. -/
theorem ofDigits_encode {width n : ℕ} (h : n < 256 ^ width) :
    Nat.ofDigits 58 ((encode width n).map alphabet.idxOf).reverse = n := by
  have hfuel : n < 58 ^ (2 * width) :=
    h.trans_le (Nat.pow_mul 58 2 width ▸ Nat.pow_le_pow_left (by decide) width)
  have hdigits : ∀ d ∈ List.replicate (leadingZeroes width n) 0
      ++ (digits 58 (2 * width) n).reverse, d < 58 := by
    intro d hd
    rcases List.mem_append.mp hd with hd | hd
    · rw [List.eq_of_mem_replicate hd]
      decide
    · exact digits_lt (by decide) _ n d (List.mem_reverse.mp hd)
  have hread : (encode width n).map alphabet.idxOf
      = List.replicate (leadingZeroes width n) 0 ++ (digits 58 (2 * width) n).reverse := by
    rw [encode, List.map_map]
    refine (List.map_congr_left fun d hd => ?_).trans (List.map_id _)
    exact idxOf_alphabet d (hdigits d hd)
  rw [hread, List.reverse_append, List.reverse_reverse, List.reverse_replicate,
    Nat.ofDigits_append_replicate_zero]
  exact ofDigits_digits (by decide) hfuel

/-- Numbers of one width have different texts. -/
theorem encode_injective {width m n : ℕ} (hm : m < 256 ^ width) (hn : n < 256 ^ width)
    (h : encode width m = encode width n) : m = n := by
  rw [← ofDigits_encode hm, ← ofDigits_encode hn, h]

end Base58
