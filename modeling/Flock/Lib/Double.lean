import Mathlib.Data.Int.Log
import Mathlib.Data.List.DropRight
import Mathlib.Data.Rat.Floor
import Mathlib.Tactic.Linarith
import Mathlib.Tactic.NormNum

/-!
# Doubles

The numbers of JavaScript. A finite one is the rational it stands for; the sign of a
zero is not kept. What a double has no room for is rounded to the nearest that it has,
and to the even one of two. Whole numbers up to 2 ^ 53 are all there, so a sum that
stays below is exact (`foldl_add_exact`).

Next to them the text of a number, as `Number` reads it. Text is UTF-16.
-/

inductive Double where
  | nan
  | infinity (negative : Bool)
  | finite (value : ℚ)
  deriving DecidableEq, Repr

namespace Double

/-! ## Rounding -/

/-- The nearest integer, and the even one of two. -/
def halfEven (q : ℚ) : ℤ :=
  if q - ⌊q⌋ < 1 / 2 ∨ q - ⌊q⌋ = 1 / 2 ∧ ⌊q⌋ % 2 = 0 then ⌊q⌋ else ⌊q⌋ + 1

/-- The exponent of the last of the 53 bits of a double about `q`. No double goes
below 2 ^ -1074. -/
def lastPlace (q : ℚ) : ℤ := max (Int.log 2 q - 52) (-1074)

/-- The nearest double to a `q ≥ 0`, if there were no largest. -/
def nearest (q : ℚ) : ℚ := halfEven (q / 2 ^ lastPlace q) * 2 ^ lastPlace q

def round (q : ℚ) : Double :=
  if nearest |q| < 2 ^ 1024 then .finite (if q < 0 then -nearest |q| else nearest |q|)
  else .infinity (q < 0)

/-- `Number(bigint)` -/
def ofBigInt (n : ℤ) : Double := round n

/-- `<`. `NaN` is not less than anything. -/
def lt : Double → Double → Bool
  | .finite a, .finite b => a < b
  | .infinity s, .infinity t => s && !t
  | .infinity s, .finite _ => s
  | .finite _, .infinity t => !t
  | _, _ => false

/-- `+` -/
def add : Double → Double → Double
  | .finite a, .finite b => round (a + b)
  | .infinity s, .infinity t => if s = t then .infinity s else .nan
  | .infinity s, .finite _ => .infinity s
  | .finite _, .infinity t => .infinity t
  | _, _ => .nan

/-! ## Whole numbers -/

theorem halfEven_intCast (n : ℤ) : halfEven n = n := by
  unfold halfEven
  rw [Int.floor_intCast, sub_self, if_pos (.inl (by norm_num))]

/-- A multiple of the last place is a double. -/
theorem nearest_of_multiple {q : ℚ} {n : ℤ} (h : q = n * 2 ^ lastPlace q) : nearest q = q := by
  have hpos : (0 : ℚ) < 2 ^ lastPlace q := zpow_pos (by norm_num) _
  have hquot : q / 2 ^ lastPlace q = n := (div_eq_iff hpos.ne').mpr h
  rw [nearest, hquot, halfEven_intCast, ← h]

theorem nearest_natCast {n : ℕ} (h : n ≤ 2 ^ 53) : nearest n = n := by
  by_cases hmax : n = 2 ^ 53
  · -- one bit more, and the last of them is zero
    have hplace : lastPlace n = 1 := by
      rw [lastPlace, Int.log_natCast, hmax, Nat.log_pow (by decide)]
      rfl
    refine nearest_of_multiple (n := 2 ^ 52) ?_
    rw [hplace, hmax]
    norm_num
  · have hlog : Int.log 2 (n : ℚ) ≤ 52 := by
      rw [Int.log_natCast]
      have hlt : Nat.log 2 n < 53 := Nat.log_lt_of_lt_pow' (by decide) (by omega)
      omega
    have hplace : lastPlace n ≤ 0 := max_le (by omega) (by decide)
    obtain ⟨k, hk⟩ := Int.eq_ofNat_of_zero_le (neg_nonneg.mpr hplace)
    have hk' : lastPlace n = -(k : ℤ) := by omega
    refine nearest_of_multiple (n := n * 2 ^ k) ?_
    rw [hk', zpow_neg, zpow_natCast]
    push_cast
    rw [mul_assoc, mul_inv_cancel₀ (by positivity), mul_one]

/-- No whole number is lost up to 2 ^ 53. -/
theorem round_intCast {n : ℤ} (h : n.natAbs ≤ 2 ^ 53) : round n = .finite n := by
  have habs : |(n : ℚ)| = (n.natAbs : ℕ) := by rw [← Int.cast_abs, Int.abs_eq_natAbs]; rfl
  have hfits : ((n.natAbs : ℕ) : ℚ) < 2 ^ 1024 := by
    have hle : ((n.natAbs : ℕ) : ℚ) ≤ 2 ^ 53 := by exact_mod_cast h
    exact hle.trans_lt (pow_lt_pow_right₀ (by norm_num) (by norm_num))
  rw [round, habs, nearest_natCast h, if_pos hfits, ← habs]
  by_cases hneg : (n : ℚ) < 0
  · rw [if_pos hneg, abs_of_neg hneg, neg_neg]
  · rw [if_neg hneg, abs_of_nonneg (not_lt.mp hneg)]

theorem add_intCast {a b : ℤ} (h : (a + b).natAbs ≤ 2 ^ 53) :
    add (.finite a) (.finite b) = .finite ((a + b : ℤ) : ℚ) := by
  show round (a + b) = _
  rw [← Int.cast_add]
  exact round_intCast h

/-- A sum that cannot get past 2 ^ 53 on the way is exact. -/
theorem foldl_add_exact {start : ℤ} (ns : List ℤ)
    (h : start.natAbs + (ns.map Int.natAbs).sum ≤ 2 ^ 53) :
    (ns.map fun n : ℤ => Double.finite n).foldl add (.finite start)
      = .finite ((start + ns.sum : ℤ) : ℚ) := by
  induction ns generalizing start with
  | nil => rw [List.sum_nil, add_zero]; rfl
  | cons n ns ih =>
    rw [List.map_cons, List.sum_cons] at h
    have hstep : (start + n).natAbs ≤ start.natAbs + n.natAbs := Int.natAbs_add_le start n
    rw [List.map_cons, List.foldl_cons, add_intCast (by omega), ih (by omega), List.sum_cons,
      add_assoc]

/-! ## Text -/

/-- The code unit of an ASCII character. -/
def unit (c : Char) : UInt16 := UInt16.ofNat c.toNat

/-- White space and line ends. -/
def isWhite (u : UInt16) : Bool :=
  u.toNat ∈ [0x9, 0xA, 0xB, 0xC, 0xD, 0x20, 0xA0, 0x1680, 0x2028, 0x2029, 0x202F, 0x205F, 0x3000,
    0xFEFF] ∨ 0x2000 ≤ u.toNat ∧ u.toNat ≤ 0x200A

/-- `trim()` -/
def trim (text : List UInt16) : List UInt16 := (text.dropWhile isWhite).rdropWhile isWhite

def digit? (base : ℕ) (u : UInt16) : Option ℕ :=
  let value :=
    if unit '0' ≤ u ∧ u ≤ unit '9' then some (u.toNat - 48)
    else if unit 'a' ≤ u ∧ u ≤ unit 'z' then some (u.toNat - 87)
    else if unit 'A' ≤ u ∧ u ≤ unit 'Z' then some (u.toNat - 55)
    else none
  value.filter (· < base)

/-- Digits, at least one. -/
def digits? (base : ℕ) (text : List UInt16) : Option ℕ :=
  if text = [] then none
  else text.foldlM (fun acc u => (digit? base u).map (acc * base + ·)) 0

/-- A sign and what comes after it. -/
def sign : List UInt16 → Bool × List UInt16
  | [] => (false, [])
  | u :: text =>
    if u = unit '-' then (true, text)
    else if u = unit '+' then (false, text)
    else (false, u :: text)

/-- The digits before and after a point, with how many are after it. -/
def mantissa? (text : List UInt16) : Option (ℕ × ℕ) :=
  match text.splitOn (unit '.') with
  | [whole] => (digits? 10 whole).map fun n => (n, 0)
  | [whole, fraction] => (digits? 10 (whole ++ fraction)).map fun n => (n, fraction.length)
  | _ => none

def exponent? (text : List UInt16) : Option ℤ :=
  (digits? 10 (sign text).2).map fun (n : ℕ) => if (sign text).1 then -(n : ℤ) else n

/-- A decimal without a sign. -/
def decimal? (text : List UInt16) : Option ℚ :=
  match text.splitOnP fun u => u = unit 'e' ∨ u = unit 'E' with
  | [m] => (mantissa? m).map fun (n, places) => n * 10 ^ (-(places : ℤ))
  | [m, e] => do
    let (n, places) ← mantissa? m
    let exponent ← exponent? e
    pure (n * 10 ^ (exponent - places))
  | _ => none

/-- The base a `0x`, `0o` or `0b` in front stands for, and what comes after it. -/
def radix? : List UInt16 → Option (ℕ × List UInt16)
  | zero :: letter :: text =>
    if zero ≠ unit '0' then none
    else if letter = unit 'x' ∨ letter = unit 'X' then some (16, text)
    else if letter = unit 'o' ∨ letter = unit 'O' then some (8, text)
    else if letter = unit 'b' ∨ letter = unit 'B' then some (2, text)
    else none
  | _ => none

/-- `Number(text)`. What is no number is `NaN`, and nothing at all is zero. -/
def ofText (text : List UInt16) : Double :=
  let trimmed := trim text
  if trimmed = [] then .finite 0
  else match radix? trimmed with
    | some (base, digits) => ((digits? base digits).map fun n => round n).getD .nan
    | none =>
      let (negative, unsigned) := sign trimmed
      if unsigned = "Infinity".toList.map unit then .infinity negative
      else ((decimal? unsigned).map fun q => round (if negative then -q else q)).getD .nan

end Double
